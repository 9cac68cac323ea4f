import HomeStack.Lib.Codec

/-! SHA-256 on words below `2^32` kept as natural numbers. -/

namespace Sha256

def word (n : Nat) : Nat := n % 2 ^ 32

def rotr (x n : Nat) : Nat := word ((x >>> n) ||| (x <<< (32 - n)))

/-- The round constants. -/
def constants : List Nat := [
  0x428a2f98, 0x71374491, 0xb5c0fbcf, 0xe9b5dba5, 0x3956c25b, 0x59f111f1, 0x923f82a4, 0xab1c5ed5,
  0xd807aa98, 0x12835b01, 0x243185be, 0x550c7dc3, 0x72be5d74, 0x80deb1fe, 0x9bdc06a7, 0xc19bf174,
  0xe49b69c1, 0xefbe4786, 0x0fc19dc6, 0x240ca1cc, 0x2de92c6f, 0x4a7484aa, 0x5cb0a9dc, 0x76f988da,
  0x983e5152, 0xa831c66d, 0xb00327c8, 0xbf597fc7, 0xc6e00bf3, 0xd5a79147, 0x06ca6351, 0x14292967,
  0x27b70a85, 0x2e1b2138, 0x4d2c6dfc, 0x53380d13, 0x650a7354, 0x766a0abb, 0x81c2c92e, 0x92722c85,
  0xa2bfe8a1, 0xa81a664b, 0xc24b8b70, 0xc76c51a3, 0xd192e819, 0xd6990624, 0xf40e3585, 0x106aa070,
  0x19a4c116, 0x1e376c08, 0x2748774c, 0x34b0bcb5, 0x391c0cb3, 0x4ed8aa4a, 0x5b9cca4f, 0x682e6ff3,
  0x748f82ee, 0x78a5636f, 0x84c87814, 0x8cc70208, 0x90befffa, 0xa4506ceb, 0xbef9a3f7, 0xc67178f2]

def initial : List Nat := [0x6a09e667, 0xbb67ae85, 0x3c6ef372, 0xa54ff53a, 0x510e527f, 0x9b05688c,
  0x1f83d9ab, 0x5be0cd19]

/-- The lowest `w` bytes of a number, highest first. -/
def bytesOf (n w : Nat) : List Nat := (List.range w).reverse.map fun i => (n >>> (8 * i)) % 256

/-- A one bit, zeros, and the length in bits. -/
def pad (bs : List Nat) : List Nat :=
  bs ++ [0x80] ++ List.replicate ((119 - bs.length % 64) % 64) 0 ++ bytesOf (8 * bs.length) 8

/-- The message schedule, newest word first. -/
def schedule : Nat → List Nat → List Nat
  | 0, w => w
  | n + 1, w =>
    let w2 := w.getD 1 0
    let w15 := w.getD 14 0
    let s0 := rotr w15 7 ^^^ rotr w15 18 ^^^ (w15 >>> 3)
    let s1 := rotr w2 17 ^^^ rotr w2 19 ^^^ (w2 >>> 10)
    schedule n (word (w.getD 15 0 + s0 + w.getD 6 0 + s1) :: w)

def round (state : List Nat) (kw : Nat × Nat) : List Nat :=
  match state with
  | [a, b, c, d, e, f, g, h] =>
    let s1 := rotr e 6 ^^^ rotr e 11 ^^^ rotr e 25
    let ch := (e &&& f) ^^^ ((2 ^ 32 - 1 - e) &&& g)
    let t1 := word (h + s1 + ch + kw.1 + kw.2)
    let s0 := rotr a 2 ^^^ rotr a 13 ^^^ rotr a 22
    let maj := (a &&& b) ^^^ (a &&& c) ^^^ (b &&& c)
    [word (t1 + word (s0 + maj)), a, b, c, word (d + t1), e, f, g]
  | _ => state

def wordsOf : List Nat → List Nat
  | a :: b :: c :: d :: rest => (a <<< 24 ||| b <<< 16 ||| c <<< 8 ||| d) :: wordsOf rest
  | _ => []

def block (state bs : List Nat) : List Nat :=
  let w := (schedule 48 (wordsOf bs).reverse).reverse
  List.zipWith (fun x y => word (x + y)) state ((constants.zip w).foldl round state)

/-- Groups of 64 bytes. -/
def chunks : Nat → List Nat → List (List Nat)
  | 0, _ => []
  | n + 1, l => if l = [] then [] else l.take 64 :: chunks n (l.drop 64)

def digest (bs : List Nat) : List Nat :=
  let padded := pad bs
  ((chunks padded.length padded).foldl block initial).flatMap fun w => bytesOf w 4

/-- Lower-case hexadecimal. -/
def hex (bs : List Nat) : Text := bs.flatMap fun b => [Nat.digitChar (b / 16), Nat.digitChar (b % 16)]

example : hex (digest [97, 98, 99]) =
    "ba7816bf8f01cfea414140de5dae2223b00361a396177a9cb410ff61f20015ad" := by decide +kernel

theorem length_round {state : List Nat} (h : state.length = 8) (kw : Nat × Nat) :
    (round state kw).length = 8 := by
  unfold round
  split
  · rfl
  · exact h

theorem length_block {state : List Nat} (h : state.length = 8) (bs : List Nat) :
    (block state bs).length = 8 := by
  have hrounds (kws : List (Nat × Nat)) {s : List Nat} (hs : s.length = 8) :
      (kws.foldl round s).length = 8 := by
    induction kws generalizing s with
    | nil => exact hs
    | cons kw kws ih => exact ih (length_round hs kw)
  simp [block, h, hrounds _ h]

theorem length_digest (bs : List Nat) : (digest bs).length = 32 := by
  have hblocks (bss : List (List Nat)) {s : List Nat} (hs : s.length = 8) :
      (bss.foldl block s).length = 8 := by
    induction bss generalizing s with
    | nil => exact hs
    | cons bs bss ih => exact ih (length_block hs bs)
  simp [digest, bytesOf, hblocks _ (show initial.length = 8 from rfl)]

theorem length_hex (bs : List Nat) : (hex bs).length = 2 * bs.length := by
  simp [hex, Nat.mul_comm]

theorem isWhitespace_hex {bs : List Nat} {c : Char} (h : c ∈ hex bs) : Text.isWhitespace c = false := by
  have hdigit (n : Nat) : Text.isWhitespace (Nat.digitChar n) = false := by
    by_cases hn : n < 16
    · interval_cases n <;> rfl
    · rw [Nat.digitChar]
      repeat rw [if_neg (by omega)]
      rfl
  simp only [hex, List.mem_flatMap, List.mem_cons, List.not_mem_nil, or_false] at h
  obtain ⟨b, -, rfl | rfl⟩ := h
  · exact hdigit _
  · exact hdigit _

end Sha256
