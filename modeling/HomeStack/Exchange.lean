import HomeStack.Lib.Chars
import HomeStack.Lib.Search
import HomeStack.Lib.Utf8
import HomeStack.Lib.Words

/-! One HTTP exchange through the tunnel (`hs-cli`, `tui/pangolin_tunnel.rs`). The peer decides what
every socket call gives and when; the bytes it sends are decoded by hand: a head of at most 8192 bytes,
then a body up to the end of the stream, of an announced length, or in chunks. -/

namespace HomeStack.Exchange

open Search

/-- `Error`, as far as the exchange answers with it. -/
inductive Error
  | cancelled | timeout | remote | response
  deriving DecidableEq

/-- How a computation does not return: a panic, or the steps given to a loop of the model run out. -/
inductive Crash
  | panic | unfinished
  deriving DecidableEq

/-! ## The socket -/

inductive ErrorKind
  | timedOut | wouldBlock | other
  deriving DecidableEq

/-- What one `read` into 1024 bytes gives; no bytes at the end of the stream. -/
inductive Read
  | data (bytes : Bytes) (fits : bytes.length ≤ 1024)
  | failed (kind : ErrorKind)

def Read.waits : Read → Bool
  | .failed .timedOut | .failed .wouldBlock => true
  | _ => false

/-- The other end and the flag of the user, by the loop's turns. The clock does not run backwards, and
it runs while a read waits. -/
structure Peer where
  connect : Except ErrorKind Unit
  setReadTimeout : Except ErrorKind Unit
  setWriteTimeout : Except ErrorKind Unit
  write : Except ErrorKind Unit
  stopBefore : Bool
  stop : Nat → Bool
  elapsed : Nat → Nat
  read : Nat → Read
  monotone : ∀ turn, elapsed turn ≤ elapsed (turn + 1)
  waiting : ∀ turn, (read turn).waits = true → elapsed turn < elapsed (turn + 1)

def healthError : ErrorKind → Error
  | .timedOut | .wouldBlock => .timeout
  | .other => .remote

/-- The loop of reads, from a turn with the bytes so far; `none` when the steps run out. -/
def receive (peer : Peer) (limit maxBody : Nat) : Nat → Nat → Bytes → Option (Except Error Bytes)
  | 0, _, _ => none
  | fuel + 1, turn, bytes =>
    if peer.stop turn then some (.error .cancelled)
    else if limit ≤ peer.elapsed turn then some (.error .timeout)
    else
      match peer.read turn with
      | .data [] _ => some (.ok bytes)
      | .data chunk _ =>
        if 8192 + 2 * maxBody < (bytes ++ chunk).length then some (.error .response)
        else receive peer limit maxBody fuel (turn + 1) (bytes ++ chunk)
      | .failed .other => some (.error .remote)
      | .failed _ => receive peer limit maxBody fuel (turn + 1) bytes

/-! ## The bytes -/

abbrev Step := ExceptT Error (Except Crash)

def crash {α : Type} (c : Crash) : Step α := ExceptT.mk (.error c)

def refuse {α : Type} : Step α := throw .response

/-- `ok_or(Error::Response)?` -/
def orRefuse {α : Type} : Option α → Step α
  | some a => pure a
  | none => refuse

/-- `&bytes[from..to]` -/
def slice (start stop : Nat) (bytes : Bytes) : Step Bytes :=
  if start ≤ stop ∧ stop ≤ bytes.length then pure ((bytes.take stop).drop start) else crash .panic

/-- `&bytes[from..]` -/
def sliceFrom (start : Nat) (bytes : Bytes) : Step Bytes :=
  if start ≤ bytes.length then pure (bytes.drop start) else crash .panic

/-- An addition of two `usize`. -/
def add (a b : Nat) : Step Nat := if a + b < 2 ^ 64 then pure (a + b) else crash .panic

def crlf : Bytes := [13, 10]

def blankLine : Bytes := [13, 10, 13, 10]

/-- `split("\r\n")` -/
def splitCrlf : Text → Text × List Text
  | '\r' :: '\n' :: rest =>
    let (line, lines) := splitCrlf rest
    ([], line :: lines)
  | c :: rest =>
    let (line, lines) := splitCrlf rest
    (c :: line, lines)
  | [] => ([], [])

/-- The value of hexadecimal digits. -/
def hexValue (s : Text) : Nat := s.foldl (fun n c => 16 * n + (Text.hexDigit c).getD 0) 0

/-- `usize::from_str_radix(.., 16)` -/
def fromStrRadix (s : Text) : Option Nat :=
  let digits := match s with
    | '+' :: rest => rest
    | _ => s
  if digits ≠ [] ∧ digits.all (fun c => (Text.hexDigit c).isSome) ∧
    hexValue digits < 2 ^ 64 then some (hexValue digits) else none

def eqIgnoreAsciiCase (a b : Text) : Bool := a.map Char.toLower == b.map Char.toLower

def versions : List Text := ["HTTP/1.1", "HTTP/1.0"]

/-- The status of the first line. -/
def statusOf (line : Text) : Step Nat :=
  match Text.words Text.isWhitespace line with
  | version :: status :: _ =>
    if version ∉ versions ∨ status.utf8.length ≠ 3 then refuse else orRefuse (Text.parseNat (2 ^ 16) status)
  | _ => refuse

/-- The length and the transfer coding that the headers announce. -/
structure Announced where
  length : Option Nat
  chunked : Bool

def announce (seen : Announced) (line : Text) : Step Announced := do
  let (key, value) ← orRefuse (Text.splitOnce [':'] line)
  if eqIgnoreAsciiCase key "content-length" then
    if seen.length.isSome then refuse
    else return { seen with length := some (← orRefuse (Text.parseNat (2 ^ 64) (Text.trim value))) }
  else if eqIgnoreAsciiCase key "transfer-encoding" then
    if Text.trim value ≠ "chunked" ∨ seen.chunked then refuse else return { seen with chunked := true }
  else return seen

/-- The size in a chunk's first line. -/
def chunkSize (line : Bytes) : Option Nat := do
  fromStrRadix ((← Bytes.fromUtf8 line).takeWhile (· ≠ ';'))

/-- The loop over the chunks, with what is decoded so far. -/
def dechunk (maxBody : Nat) : Nat → Bytes → Bytes → Step Bytes
  | 0, _, _ => crash .unfinished
  | fuel + 1, input, decoded => do
    let place ← orRefuse (position crlf input)
    let count ← orRefuse (chunkSize (← slice 0 place input))
    let input ← sliceFrom (place + 2) input
    if count = 0 then return decoded
    else if maxBody - decoded.length < count then refuse
    else do
      let stop ← add count 2
      if input.length < stop then refuse
      else do
        let last ← slice count stop input
        if last ≠ crlf then refuse
        else do
          let data ← slice 0 count input
          let rest ← sliceFrom stop input
          dechunk maxBody fuel rest (decoded ++ data)

/-- What follows the loop of reads. -/
def decode (maxBody : Nat) (bytes : Bytes) : Step (Nat × Bytes) := do
  let boundary ← orRefuse (position blankLine bytes)
  if 8192 < boundary then refuse
  else do
    let headers ← orRefuse (Bytes.fromUtf8 (← slice 0 boundary bytes))
    let (first, lines) := splitCrlf headers
    let status ← statusOf first
    let body ← sliceFrom (boundary + 4) bytes
    let announced ← lines.foldlM announce ⟨none, false⟩
    let body ←
      if announced.chunked then
        if announced.length.isSome then refuse else dechunk maxBody (body.length + 1) body []
      else pure body
    if maxBody < body.length ∨ announced.length.any (· ≠ body.length) then refuse else return (status, body)

/-- `exchange`; the request is what `write` sends. -/
def exchange (fuel : Nat) (peer : Peer) (limit maxBody : Nat) :
    Option (Except Crash (Except Error (Nat × Bytes))) :=
  if peer.stopBefore then some (.ok (.error .cancelled))
  else
    match peer.connect, peer.setReadTimeout, peer.setWriteTimeout, peer.write with
    | .error kind, _, _, _ => some (.ok (.error (healthError kind)))
    | .ok _, .error _, _, _ | .ok _, .ok _, .error _, _ => some (.ok (.error .remote))
    | .ok _, .ok _, .ok _, .error kind => some (.ok (.error (healthError kind)))
    | .ok _, .ok _, .ok _, .ok _ =>
      -- the capacity of the buffer is checked
      if 2 ^ 63 ≤ 8192 + 2 * maxBody + 1024 then some (.error .panic)
      else
        match receive peer limit maxBody fuel 0 [] with
        | none => none
        | some (.error e) => some (.ok (.error e))
        | some (.ok []) => some (.ok (.error .remote))
        | some (.ok bytes) => some (decode maxBody bytes).run

/-! ## Framing -/

/-- A header line. -/
structure Header where
  name : Text
  value : Text
  colon : ':' ∉ name
  unbroken : '\r' ∉ name ∧ '\r' ∉ value

def Header.line (h : Header) : Text := h.name ++ ':' :: h.value

/-- The header is about neither the length nor the transfer coding. -/
def Header.Silent (h : Header) : Prop :=
  eqIgnoreAsciiCase h.name "content-length" = false ∧ eqIgnoreAsciiCase h.name "transfer-encoding" = false

def digit (n : Nat) : Char := Char.ofNat (48 + n)

/-- Three digits. -/
def statusText (n : Nat) : Text := [digit (n / 100), digit (n / 10 % 10), digit (n % 10)]

structure StatusLine where
  version : Text
  status : Nat
  reason : Text
  known : version ∈ versions
  small : status < 1000
  spaced : ∀ c, reason.head? = some c → c = ' '
  unbroken : '\r' ∉ reason

def StatusLine.text (l : StatusLine) : Text := l.version ++ ' ' :: statusText l.status ++ l.reason

/-- The first line of a chunk with `n` bytes: hexadecimal digits and any extensions. -/
structure SizeLine (n : Nat) where
  size : Text
  extensions : Text
  digits : size ≠ [] ∧ size.all (fun c => (Text.hexDigit c).isSome) = true
  value : hexValue size = n
  begun : ∀ c, extensions.head? = some c → c = ';'
  unbroken : '\r' ∉ extensions

def SizeLine.text {n : Nat} (l : SizeLine n) : Text := l.size ++ l.extensions

structure Chunk where
  data : Bytes
  nonempty : data ≠ []
  line : SizeLine data.length

def Chunk.bytes (c : Chunk) : Bytes := c.line.text.utf8 ++ crlf ++ c.data ++ crlf

/-- A body as it is sent, with what follows its last chunk. -/
inductive Framing
  | length (body : Bytes)
  | chunked (chunks : List Chunk) (last : SizeLine 0) (trailer : Bytes)

def Framing.body : Framing → Bytes
  | .length body => body
  | .chunked chunks _ _ => chunks.flatMap Chunk.data

def Framing.bytes : Framing → Bytes
  | .length body => body
  | .chunked chunks last trailer => chunks.flatMap Chunk.bytes ++ (last.text.utf8 ++ crlf ++ trailer)

/-- The header that announces the framing. -/
def Framing.AnnouncedBy (f : Framing) (h : Header) : Prop :=
  match f with
  | .length body =>
    eqIgnoreAsciiCase h.name "content-length" = true ∧
      Text.parseNat (2 ^ 64) (Text.trim h.value) = some body.length
  | .chunked .. => eqIgnoreAsciiCase h.name "transfer-encoding" = true ∧ Text.trim h.value = "chunked"

structure Response where
  first : StatusLine
  before : List Header
  header : Header
  after : List Header
  framing : Framing
  silent : ∀ h ∈ before ++ after, h.Silent
  announced : framing.AnnouncedBy header

def Response.lines (r : Response) : List Header := r.before ++ r.header :: r.after

def headerText (hs : List Header) : Text := hs.flatMap fun h => '\r' :: '\n' :: h.line

def Response.head (r : Response) : Text := r.first.text ++ headerText r.lines

def Response.bytes (r : Response) : Bytes := r.head.utf8 ++ blankLine ++ r.framing.bytes

/-- A complete sequence of chunks with its data, whatever follows the line of the last one. -/
inductive Chunks : Bytes → Bytes → Prop
  | last (line rest : Bytes) (hline : position crlf line = none) (hsize : chunkSize line = some 0) :
    Chunks (line ++ crlf ++ rest) []
  | chunk (line data : Bytes) {rest body : Bytes} (hline : position crlf line = none) (hdata : data ≠ [])
    (hsize : chunkSize line = some data.length) (hrest : Chunks rest body) :
    Chunks (line ++ crlf ++ data ++ crlf ++ rest) (data ++ body)

/-- The line is a header of this name. -/
def Carries (name line value : Text) : Prop :=
  ∃ key, Text.splitOnce [':'] line = some (key, value) ∧ eqIgnoreAsciiCase key name = true

/-- The body is what the bytes frame. -/
def Framed (bytes body : Bytes) : Prop :=
  ∃ head rest : Bytes, ∃ text : Text, bytes = head ++ blankLine ++ rest ∧
    position blankLine bytes = some head.length ∧
    Bytes.fromUtf8 head = some text ∧
    (∀ line ∈ (splitCrlf text).2, ∀ value, Carries "transfer-encoding" line value → Chunks rest body) ∧
    ∀ line ∈ (splitCrlf text).2, ∀ value, Carries "content-length" line value →
      body = rest ∧ Text.parseNat (2 ^ 64) (Text.trim value) = some body.length

/-- From this turn on the peer sends these bytes, in any pieces, and closes. -/
inductive Delivers (peer : Peer) (limit : Nat) : Nat → Bytes → Prop
  | closed {turn : Nat} {fits : [].length ≤ 1024} (hstop : peer.stop turn = false)
    (htime : peer.elapsed turn < limit)
    (hread : peer.read turn = .data [] fits) : Delivers peer limit turn []
  | part {turn : Nat} {chunk rest : Bytes} {fits : chunk.length ≤ 1024} (hstop : peer.stop turn = false)
    (htime : peer.elapsed turn < limit) (hread : peer.read turn = .data chunk fits) (hchunk : chunk ≠ [])
    (hrest : Delivers peer limit (turn + 1) rest) : Delivers peer limit turn (chunk ++ rest)
  | wait {turn : Nat} {rest : Bytes} (hstop : peer.stop turn = false) (htime : peer.elapsed turn < limit)
    (hread : (peer.read turn).waits = true) (hrest : Delivers peer limit (turn + 1) rest) :
      Delivers peer limit turn rest

/-- The peer takes the request. -/
structure Peer.Takes (peer : Peer) : Prop where
  stop : peer.stopBefore = false
  connect : peer.connect = .ok ()
  setReadTimeout : peer.setReadTimeout = .ok ()
  setWriteTimeout : peer.setWriteTimeout = .ok ()
  write : peer.write = .ok ()

/-! ## No step panics -/

/-- The step does not crash, and what it gives satisfies `post`. -/
def Sure {α : Type} (x : Step α) (post : α → Prop) : Prop :=
  match x.run with
  | .error _ => False
  | .ok (.error _) => True
  | .ok (.ok a) => post a

section

variable {α β : Type} {x : Step α} {f : α → Step β} {post : α → Prop} {bytes input decoded : Bytes}
  {start stop maxBody : Nat}

theorem sure_pure {a : α} (h : post a) : Sure (pure a) post := h

theorem sure_refuse : Sure (refuse : Step α) post := trivial

theorem sure_bind {post : β → Prop} (h : Sure x fun a => Sure (f a) post) : Sure (x >>= f) post := by
  match x, h with
  | .error _, h => exact h.elim
  | .ok (.error _), _ => trivial
  | .ok (.ok _), h => exact h

theorem sure_mono {post' : α → Prop} (h : Sure x post) (himp : ∀ a, post a → post' a) : Sure x post' := by
  match x, h with
  | .error _, h => exact h.elim
  | .ok (.error _), _ => trivial
  | .ok (.ok a), h => exact himp a h

theorem sure_orRefuse {o : Option α} (h : ∀ a, o = some a → post a) : Sure (orRefuse o) post := by
  cases o with
  | none => exact sure_refuse
  | some a => exact sure_pure (h a rfl)

theorem sure_slice {post : Bytes → Prop} (hle : start ≤ stop) (hlength : stop ≤ bytes.length)
    (h : post ((bytes.take stop).drop start)) : Sure (slice start stop bytes) post := by
  unfold slice
  rw [if_pos ⟨hle, hlength⟩]
  exact sure_pure h

theorem sure_sliceFrom {post : Bytes → Prop} (hlength : start ≤ bytes.length) (h : post (bytes.drop start)) :
    Sure (sliceFrom start bytes) post := by
  unfold sliceFrom
  rw [if_pos hlength]
  exact sure_pure h

theorem split_middle (hle : start ≤ stop) (bytes : Bytes) :
    bytes = bytes.take start ++ (bytes.take stop).drop start ++ bytes.drop stop := by
  have hstarts : (bytes.take stop).take start = bytes.take start := by
    rw [List.take_take, Nat.min_eq_left hle]
  rw [← hstarts, List.take_append_drop, List.take_append_drop]

theorem crlf_length : crlf.length = 2 := rfl

/-- What is decoded is the data of a complete sequence. -/
theorem sure_dechunk (hcap : maxBody < 2 ^ 63) {fuel : Nat} (hfuel : input.length < fuel)
    (hfits : decoded.length ≤ maxBody) :
    Sure (dechunk maxBody fuel input decoded) fun body => ∃ data, body = decoded ++ data ∧
      Chunks input data := by
  induction fuel generalizing input decoded with
  | zero => omega
  | succ fuel ih =>
    refine sure_bind (sure_orRefuse fun place hplace => ?_)
    have hsplit := position_some hplace
    have hbound := position_lt hplace
    have hline := position_take hplace
    rw [crlf_length] at hsplit hbound
    refine sure_bind (sure_slice (Nat.zero_le _) (by omega)
      (sure_bind (sure_orRefuse fun count hcount => ?_)))
    rw [List.drop_zero] at hcount
    refine sure_bind (sure_sliceFrom hbound ?_)
    generalize hrest : input.drop (place + 2) = rest at *
    have hlength : rest.length + place + 2 = input.length := by
      rw [← hrest, List.length_drop]
      omega
    split
    next hzero =>
      subst hzero
      refine sure_pure ⟨[], (List.append_nil decoded).symm, ?_⟩
      rw [hsplit]
      exact .last _ _ hline hcount
    next hne =>
      split
      next => exact sure_refuse
      next hroom =>
        refine sure_bind ?_
        unfold add
        rw [if_pos (by omega)]
        refine sure_pure ?_
        split
        next => exact sure_refuse
        next hlong =>
          refine sure_bind (sure_slice (by omega) (by omega) ?_)
          split
          next => exact sure_refuse
          next hend =>
            refine sure_bind (sure_slice (Nat.zero_le _) (by omega) ?_)
            refine sure_bind (sure_sliceFrom (by omega) ?_)
            have hdata : ((rest.take count).drop 0).length = count := by
              rw [List.drop_zero, List.length_take]
              omega
            refine sure_mono (ih ?_ ?_) ?_
            · rw [List.length_drop]
              omega
            · rw [List.length_append, hdata]
              omega
            · rintro body ⟨data, rfl, hchunks⟩
              rw [List.drop_zero] at hdata ⊢
              refine ⟨rest.take count ++ data, List.append_assoc .., ?_⟩
              have hwhole : input = input.take place ++ crlf ++ rest.take count ++ crlf ++
                  rest.drop (count + 2) := by
                have hmiddle := split_middle (Nat.le_add_right count 2) rest
                rw [not_not.mp hend] at hmiddle
                have hjoined := hsplit.trans (congrArg (input.take place ++ crlf ++ ·) hmiddle)
                simpa only [List.append_assoc] using hjoined
              rw [hwhole]
              refine .chunk _ _ hline ?_ ?_ hchunks
              · intro hnil
                rw [hnil] at hdata
                exact hne hdata.symm
              · rw [hcount, hdata]

theorem sure_statusOf (line : Text) : Sure (statusOf line) fun _ => True := by
  unfold statusOf
  split
  · split
    · exact sure_refuse
    · exact sure_orRefuse fun _ _ => trivial
  · exact sure_refuse

/-- What the lines announce: the last header of each kind, and no second one. -/
structure Seen (lines : List Text) (seen : Announced) : Prop where
  length : ∀ line ∈ lines, ∀ value, Carries "content-length" line value →
    seen.length.isSome = true ∧ Text.parseNat (2 ^ 64) (Text.trim value) = seen.length
  chunked : ∀ line ∈ lines, ∀ value, Carries "transfer-encoding" line value → seen.chunked = true

theorem sure_announce {lines : List Text} {seen : Announced} (h : Seen lines seen) (line : Text) :
    Sure (announce seen line) fun seen' => Seen (lines ++ [line]) seen' := by
  have hlast {seen' : Announced} {key value : Text} (hsplit : Text.splitOnce [':'] line = some (key, value))
      (hlength : (seen'.length = seen.length ∨ seen.length = none) ∧
        (eqIgnoreAsciiCase key "content-length" = true →
        seen'.length.isSome = true ∧ Text.parseNat (2 ^ 64) (Text.trim value) = seen'.length))
      (hchunked : (seen.chunked = true → seen'.chunked = true) ∧
        (eqIgnoreAsciiCase key "transfer-encoding" = true → seen'.chunked = true)) : Seen
          (lines ++ [line]) seen' := by
    have hother {value' key' : Text} (h' : Text.splitOnce [':'] line = some (key', value')) : key' = key ∧
        value' = value := by
      rw [hsplit] at h'
      exact ⟨(Prod.mk.inj (Option.some.inj h')).1.symm, (Prod.mk.inj (Option.some.inj h')).2.symm⟩
    refine ⟨fun line' hline' value' hcarries => ?_, fun line' hline' value' hcarries => ?_⟩
    · rcases List.mem_append.mp hline' with hold | hnew
      · obtain ⟨hsome, hvalue⟩ := h.length line' hold value' hcarries
        rcases hlength.1 with hkept | hnone
        · rw [hkept]
          exact ⟨hsome, hvalue⟩
        · rw [hnone] at hsome
          cases hsome
      · obtain rfl := List.mem_singleton.mp hnew
        obtain ⟨key', hkey', hname⟩ := hcarries
        obtain ⟨rfl, rfl⟩ := hother hkey'
        exact hlength.2 hname
    · rcases List.mem_append.mp hline' with hold | hnew
      · exact hchunked.1 (h.chunked line' hold value' hcarries)
      · obtain rfl := List.mem_singleton.mp hnew
        obtain ⟨key', hkey', hname⟩ := hcarries
        obtain ⟨rfl, rfl⟩ := hother hkey'
        exact hchunked.2 hname
  refine sure_bind (sure_orRefuse fun entry hentry => ?_)
  obtain ⟨key, value⟩ := entry
  dsimp only
  split
  next hkey =>
    split
    next => exact sure_refuse
    next hnone =>
      refine sure_bind (sure_orRefuse fun n hn =>
        sure_pure (hlast hentry ⟨Or.inr (by simpa using hnone), fun _ => ⟨rfl, hn⟩⟩ ⟨id, ?_⟩))
      intro hboth
      have hnames := (beq_iff_eq.mp hkey).symm.trans (beq_iff_eq.mp hboth)
      exact absurd hnames (by decide)
  next hkey =>
    split
    next hte =>
      split
      next => exact sure_refuse
      next => exact sure_pure (hlast hentry ⟨Or.inl rfl, fun h => absurd h hkey⟩ ⟨fun _ => rfl, fun _ => rfl⟩)
    next hte => exact sure_pure (hlast hentry ⟨Or.inl rfl, fun h => absurd h hkey⟩
      ⟨id, fun h => absurd h hte⟩)

theorem sure_announced {before lines : List Text} {seen : Announced} (h : Seen before seen) :
    Sure (lines.foldlM announce seen) fun seen' => Seen (before ++ lines) seen' := by
  induction lines generalizing before seen with
  | nil => exact sure_pure (by rwa [List.append_nil])
  | cons line lines ih =>
    refine sure_bind (sure_mono (sure_announce h line) fun seen' hseen => ?_)
    refine sure_mono (ih hseen) fun last hlast => ?_
    rwa [List.append_assoc, List.singleton_append] at hlast

/-- A response that is accepted frames its body. -/
theorem sure_decode (hcap : maxBody < 2 ^ 63) : Sure (decode maxBody bytes) fun r => Framed bytes r.2 := by
  refine sure_bind (sure_orRefuse fun boundary hboundary => ?_)
  have hsplit := position_some hboundary
  have hbound := position_lt hboundary
  have hfour : blankLine.length = 4 := rfl
  rw [hfour] at hsplit hbound
  split
  next => exact sure_refuse
  next =>
    refine sure_bind (sure_slice (Nat.zero_le _) (by omega) (sure_bind (sure_orRefuse fun text htext => ?_)))
    rw [List.drop_zero] at htext
    dsimp only
    refine sure_bind (sure_mono (sure_statusOf _) fun status _ => sure_bind (sure_sliceFrom hbound ?_))
    generalize hrest : bytes.drop (boundary + 4) = rest at *
    have hseen : Seen [] ⟨none, false⟩ := ⟨nofun, nofun⟩
    refine sure_bind (sure_mono (sure_announced hseen) fun announced hann => ?_)
    rw [List.nil_append] at hann
    have hframed {body : Bytes} (hlength : announced.length.any (· ≠ body.length) = false)
        (hbody : announced.chunked = true → announced.length = none ∧ Chunks rest body)
        (hplain : announced.chunked = false → body = rest) : Framed bytes body := by
      have hhead : (bytes.take boundary).length = boundary := by
        rw [List.length_take]
        omega
      refine ⟨bytes.take boundary, rest, text, hsplit, by rw [hhead]; exact hboundary, htext, ?_, ?_⟩
      · exact fun line hline value hvalue => (hbody (hann.chunked line hline value hvalue)).2
      · intro line hline value hvalue
        obtain ⟨hsome, hvalue⟩ := hann.length line hline value hvalue
        obtain ⟨n, hn⟩ := Option.isSome_iff_exists.mp hsome
        rw [hn] at hlength hvalue
        have hsame : n = body.length := by simpa using hlength
        refine ⟨hplain ?_, by rw [hvalue, hsame]⟩
        by_contra hchunked
        have hnone := (hbody (by simpa using hchunked)).1
        rw [hn] at hnone
        cases hnone
    have hlast {body : Bytes} {announced : Announced} (h : announced.length.any (· ≠ body.length) = false →
        Framed bytes body) (status : Nat) :
        Sure (if maxBody < body.length ∨ announced.length.any (· ≠ body.length) then refuse
          else (pure (status, body) : Step (Nat × Bytes))) fun r => Framed bytes r.2 := by
      split
      next => exact sure_refuse
      next hfits => exact sure_pure (h (Bool.eq_false_iff.mpr (not_or.mp hfits).2))
    split
    next hchunked =>
      split
      next => exact sure_refuse
      next hnone =>
        refine sure_bind (sure_mono (sure_dechunk hcap (Nat.lt_succ_self _) (Nat.zero_le _)) ?_)
        rintro body ⟨data, rfl, hchunks⟩
        exact hlast (fun hlength => hframed hlength (fun _ => ⟨by simpa using hnone, hchunks⟩) fun hplain =>
          absurd (hchunked.symm.trans hplain) nofun) status
    next hplain =>
      exact hlast (fun hlength => hframed hlength (fun h => absurd h hplain) fun _ => rfl) status

/-! ## What is encoded is decoded -/

theorem slice_eq (hle : start ≤ stop) (hlength : stop ≤ bytes.length) :
    slice start stop bytes = pure ((bytes.take stop).drop start) := if_pos ⟨hle, hlength⟩

theorem sliceFrom_eq (hlength : start ≤ bytes.length) : sliceFrom start bytes = pure (bytes.drop start) :=
  if_pos hlength

theorem add_eq {a b : Nat} (h : a + b < 2 ^ 64) : add a b = pure (a + b) := if_pos h

theorem orRefuse_some (a : α) : orRefuse (some a) = pure a := rfl

theorem cr_not_mem {text : Text} (h : '\r' ∉ text) : 13 ∉ text.utf8 := by
  intro hmem
  obtain ⟨c, hc, hcode⟩ := Text.ascii_mem_utf8 (by decide) hmem
  have hcr : c = '\r' := Char.toNat_inj.mp hcode
  exact h (hcr ▸ hc)

theorem hexDigit_of_mem {n : Nat} {l : SizeLine n} {c : Char} (hc : c ∈ l.size) :
    (Text.hexDigit c).isSome = true :=
  List.all_eq_true.mp l.digits.2 c hc

theorem SizeLine.cr_not_mem {n : Nat} (l : SizeLine n) : '\r' ∉ l.text := by
  intro hmem
  rcases List.mem_append.mp hmem with hsize | hext
  · exact absurd (hexDigit_of_mem hsize) (by decide)
  · exact l.unbroken hext

theorem takeWhile_text {n : Nat} (l : SizeLine n) : l.text.takeWhile (· ≠ ';') = l.size := by
  have hsize : ∀ c ∈ l.size, decide (c ≠ ';') = true := by
    intro c hc
    refine decide_eq_true fun heq => ?_
    subst heq
    exact absurd (hexDigit_of_mem hc) (by decide)
  rw [SizeLine.text, List.takeWhile_append_of_pos hsize]
  cases hext : l.extensions with
  | nil => simp
  | cons c rest =>
    have hc : c = ';' := l.begun c (by rw [hext]; rfl)
    simp [hc]

theorem chunkSize_text {n : Nat} (hn : n < 2 ^ 64) (l : SizeLine n) : chunkSize l.text.utf8 = some n := by
  have hplus : (match l.size with | '+' :: rest => rest | _ => l.size) = l.size := by
    split
    next rest heq =>
      have hmem : '+' ∈ l.size := by
        rw [heq]
        exact List.mem_cons_self
      exact absurd (hexDigit_of_mem hmem) (by decide)
    next => rfl
  unfold chunkSize
  rw [Text.fromUtf8_utf8]
  show fromStrRadix (l.text.takeWhile (· ≠ ';')) = some n
  rw [takeWhile_text]
  unfold fromStrRadix
  simp only [hplus]
  rw [if_pos ⟨l.digits.1, l.digits.2, by rwa [l.value]⟩, l.value]

section

variable {n fuel : Nat} {rest : Bytes}

/-- The line of a chunk is cut off. -/
theorem cut_line (l : SizeLine n) (rest : Bytes) :
    let input := l.text.utf8 ++ crlf ++ rest
    position crlf input = some l.text.utf8.length ∧ slice 0 l.text.utf8.length input = pure l.text.utf8 ∧
      sliceFrom (l.text.utf8.length + 2) input = pure rest := by
  refine ⟨position_append (cr_not_mem l.cr_not_mem), ?_, ?_⟩
  · rw [slice_eq (Nat.zero_le _) (by simp), List.append_assoc, List.take_left, List.drop_zero]
  · have hlength : (l.text.utf8 ++ crlf).length = l.text.utf8.length + 2 := List.length_append
    rw [← hlength, sliceFrom_eq (by simp), List.drop_left]

theorem dechunk_last (l : SizeLine 0) (rest : Bytes) :
    dechunk maxBody (fuel + 1) (l.text.utf8 ++ crlf ++ rest) decoded = pure decoded := by
  obtain ⟨hplace, hline, hrest⟩ := cut_line l rest
  unfold dechunk
  simp only [hplace, hline, hrest, chunkSize_text (by omega) l, orRefuse_some, pure_bind]
  rfl

theorem dechunk_chunk (hcap : maxBody < 2 ^ 63) (c : Chunk)
    (hfits : decoded.length + c.data.length ≤ maxBody) (rest : Bytes) :
    dechunk maxBody (fuel + 1) (c.bytes ++ rest) decoded = dechunk maxBody fuel rest (decoded ++ c.data) := by
  have hbytes : c.bytes ++ rest = c.line.text.utf8 ++ crlf ++ (c.data ++ crlf ++ rest) := by
    simp only [Chunk.bytes, List.append_assoc]
  obtain ⟨hplace, hline, hrest⟩ := cut_line c.line (c.data ++ crlf ++ rest)
  have hlength : (c.data ++ crlf).length = c.data.length + 2 := List.length_append
  have hpositive : c.data.length ≠ 0 := fun hzero => c.nonempty (List.length_eq_zero_iff.mp hzero)
  have hend : slice c.data.length (c.data.length + 2) (c.data ++ crlf ++ rest) = pure crlf := by
    rw [slice_eq (by omega) (by rw [List.length_append]; omega), ← hlength, List.take_left, List.drop_left]
  have hdata : slice 0 c.data.length (c.data ++ crlf ++ rest) = pure c.data := by
    rw [slice_eq (by omega) (by simp only [List.length_append]; omega), List.append_assoc,
      List.take_left, List.drop_zero]
  have htail : sliceFrom (c.data.length + 2) (c.data ++ crlf ++ rest) = pure rest := by
    rw [← hlength, sliceFrom_eq (by simp), List.drop_left]
  rw [hbytes, dechunk]
  simp only [hplace, hline, hrest, chunkSize_text (by omega) c.line, orRefuse_some, pure_bind]
  rw [if_neg hpositive, if_neg (by omega), add_eq (by omega), pure_bind,
    if_neg (by simp only [List.length_append, crlf_length]; omega)]
  simp only [hend, hdata, htail, pure_bind, ne_eq, not_true_eq_false, if_false]

/-- A sequence of chunks gives its data. -/
theorem dechunk_bytes (hcap : maxBody < 2 ^ 63) {chunks : List Chunk} (last : SizeLine 0) (trailer : Bytes)
    (hfuel : (Framing.chunked chunks last trailer).bytes.length < fuel)
    (hfits : decoded.length + (chunks.flatMap Chunk.data).length ≤ maxBody) :
    dechunk maxBody fuel (Framing.chunked chunks last trailer).bytes decoded =
      pure (decoded ++ chunks.flatMap Chunk.data) := by
  induction chunks generalizing fuel decoded with
  | nil =>
    obtain ⟨fuel, rfl⟩ : ∃ k, fuel = k + 1 := ⟨fuel - 1, by omega⟩
    rw [List.flatMap_nil, List.append_nil]
    exact dechunk_last last trailer
  | cons c chunks ih =>
    obtain ⟨fuel, rfl⟩ : ∃ k, fuel = k + 1 := ⟨fuel - 1, by omega⟩
    have hbytes : (Framing.chunked (c :: chunks) last trailer).bytes = c.bytes ++
        (Framing.chunked chunks last trailer).bytes := by
      simp only [Framing.bytes, List.flatMap_cons, List.append_assoc]
    rw [List.flatMap_cons, List.length_append] at hfits
    rw [hbytes, List.length_append] at hfuel
    have hchunk : 0 < c.bytes.length := by
      simp only [Chunk.bytes, List.length_append, crlf_length]
      omega
    rw [hbytes, dechunk_chunk hcap c (by omega), ih (by omega) (by rw [List.length_append]; omega),
      List.flatMap_cons,
      List.append_assoc]

end

/-! The head -/

theorem Header.cr_not_mem (h : Header) : '\r' ∉ h.line := by
  intro hmem
  rcases List.mem_append.mp hmem with hname | hvalue
  · exact h.unbroken.1 hname
  · rcases List.mem_cons.mp hvalue with heq | hvalue
    · cases heq
    · exact h.unbroken.2 hvalue

theorem Header.splitOnce_line (h : Header) : Text.splitOnce [':'] h.line = some (h.name, h.value) := by
  have hname : Text.splitOnce [':'] h.name = none := Text.splitOnce_none_of_not_mem [] _ h.colon
  exact Text.splitOnce_append (b := h.value) List.not_mem_nil hname

theorem splitCrlf_cr_not_mem {l : Text} (hl : '\r' ∉ l) (rest : Text) :
    splitCrlf (l ++ rest) = (l ++ (splitCrlf rest).1, (splitCrlf rest).2) := by
  induction l with
  | nil => rfl
  | cons c l ih =>
    have hc : c ≠ '\r' := fun heq => hl (heq ▸ List.mem_cons_self)
    have hstep : splitCrlf (c :: (l ++ rest)) = (c :: (splitCrlf (l ++ rest)).1,
        (splitCrlf (l ++ rest)).2) := by
      rw [splitCrlf]
      rintro rest' rfl
      exact absurd rfl hc
    rw [List.cons_append, hstep, ih fun hmem => hl (List.mem_cons_of_mem c hmem)]
    rfl

theorem splitCrlf_lines {l : Text} (hl : '\r' ∉ l) {hs : List Header} :
    splitCrlf (l ++ headerText hs) = (l, hs.map Header.line) := by
  induction hs generalizing l with
  | nil => rw [headerText, List.flatMap_nil, splitCrlf_cr_not_mem hl, splitCrlf, List.append_nil]; rfl
  | cons h hs ih =>
    have hlines : headerText (h :: hs) = '\r' :: '\n' :: (h.line ++ headerText hs) := rfl
    rw [splitCrlf_cr_not_mem hl, hlines, splitCrlf, ih h.cr_not_mem]
    simp

theorem utf8_header (h : Header) (hs : List Header) :
    (headerText (h :: hs)).utf8 = 13 :: 10 :: (h.line.utf8 ++ (headerText hs).utf8) := by
  have hlines : headerText (h :: hs) = ['\r', '\n'] ++ (h.line ++ headerText hs) := rfl
  rw [hlines, Text.utf8_append, Text.utf8_append]
  rfl

/-- The blank line after the headers is the first one. -/
theorem position_blankLine (hs : List Header) (rest : Bytes) :
    position blankLine ((headerText hs).utf8 ++ blankLine ++ rest) = some (headerText hs).utf8.length := by
  induction hs with
  | nil => exact position_self (by decide)
  | cons h hs ih =>
    obtain ⟨b, line, hline⟩ : ∃ b line, h.line.utf8 = b :: line := by
      cases hutf8 : h.line.utf8 with
      | cons b line => exact ⟨b, line, rfl⟩
      | nil =>
        have hempty : h.line = [] := Text.utf8_inj hutf8
        simp [Header.line] at hempty
    have hcr : 13 ∉ h.line.utf8 := cr_not_mem h.cr_not_mem
    have hb : b ≠ 13 := by
      rintro rfl
      exact hcr (hline ▸ List.mem_cons_self)
    have hskip : position blankLine (h.line.utf8 ++ ((headerText hs).utf8 ++ blankLine ++ rest)) =
        some ((headerText hs).utf8.length + h.line.utf8.length) := by
      rw [blankLine, position_skip hcr, ← blankLine, ih, Option.map_some]
    rw [utf8_header, List.cons_append, List.cons_append, List.cons_append, List.cons_append,
      List.append_assoc, List.append_assoc,
      ← List.append_assoc (headerText hs).utf8]
    have hfirst : blankLine.isPrefixOf
        (13 :: 10 :: (h.line.utf8 ++ ((headerText hs).utf8 ++ blankLine ++ rest))) = false := by
      rw [hline, blankLine]
      simp [List.isPrefixOf, Ne.symm hb]
    have hsecond : blankLine.isPrefixOf (10 :: (h.line.utf8 ++ ((headerText hs).utf8 ++ blankLine ++ rest))) =
        false := rfl
    rw [position, if_neg (Bool.eq_false_iff.mp hfirst), position,
      if_neg (Bool.eq_false_iff.mp hsecond), hskip]
    simp only [Option.map_some, List.length_cons, List.length_append]
    congr 1
    omega

theorem digit_small : ∀ n : Fin 10, Text.isWhitespace (digit n) = false ∧ digit n ≠ '\r' ∧
    (digit n).isDigit = true ∧ (String.utf8EncodeChar (digit n)).length = 1 ∧
    (digit n).toNat - '0'.toNat = n := by
  decide

theorem statusText_small (n : Fin 1000) : Text.parseNat (2 ^ 16) (statusText n) = some n.val ∧
    (statusText n).utf8.length = 3 ∧ ∀ c ∈ statusText n, Text.isWhitespace c = false ∧ c ≠ '\r' := by
  obtain ⟨n, hn⟩ := n
  obtain ⟨hw₁, hr₁, hd₁, hl₁, hv₁⟩ := digit_small ⟨n / 100, by omega⟩
  obtain ⟨hw₂, hr₂, hd₂, hl₂, hv₂⟩ := digit_small ⟨n / 10 % 10, by omega⟩
  obtain ⟨hw₃, hr₃, hd₃, hl₃, hv₃⟩ := digit_small ⟨n % 10, by omega⟩
  dsimp only at hw₁ hr₁ hd₁ hl₁ hv₁ hw₂ hr₂ hd₂ hl₂ hv₂ hw₃ hr₃ hd₃ hl₃ hv₃ ⊢
  refine ⟨?_, ?_, ?_⟩
  · have hplus : digit (n / 100) ≠ '+' := by
      intro heq
      rw [heq] at hd₁
      cases hd₁
    have hvalue : Text.digitsValue (statusText n) = n := by
      simp only [Text.digitsValue, statusText, Nat.ofDigitChars, List.foldl_cons,
        List.foldl_nil, hv₁, hv₂, hv₃]
      omega
    have hall : Text.allDigits (statusText n) = true := by
      simp [Text.allDigits, statusText, hd₁, hd₂, hd₃]
    have hfine : statusText n ≠ [] ∧ Text.allDigits (statusText n) = true ∧
        Text.digitsValue (statusText n) < 2 ^ 16 :=
      ⟨List.cons_ne_nil _ _, hall, by rw [hvalue]; omega⟩
    rw [Text.parseNat, if_pos hfine, hvalue]
    exact fun rest heq => hplus (List.cons.inj heq).1
  · rw [statusText, Text.utf8_cons, Text.utf8_cons, Text.utf8_cons, List.length_append,
      List.length_append, List.length_append,
      hl₁, hl₂, hl₃]
    rfl
  · intro c hc
    simp only [statusText, List.mem_cons, List.not_mem_nil, or_false] at hc
    rcases hc with rfl | rfl | rfl
    · exact ⟨hw₁, hr₁⟩
    · exact ⟨hw₂, hr₂⟩
    · exact ⟨hw₃, hr₃⟩

theorem versions_small : ∀ v ∈ versions, v ≠ [] ∧ ∀ c ∈ v, Text.isWhitespace c = false ∧ c ≠ '\r' :=
  Text.of_literals (P := fun s t => ∀ v ∈ [s, t], v ≠ [] ∧ ∀ c ∈ v, Text.isWhitespace c = false ∧
    c ≠ '\r') (by decide)

theorem StatusLine.cr_not_mem (l : StatusLine) : '\r' ∉ l.text := by
  intro hmem
  rcases List.mem_append.mp hmem with hmem | hreason
  · rcases List.mem_append.mp hmem with hversion | hmem
    · exact ((versions_small _ l.known).2 _ hversion).2 rfl
    · rcases List.mem_cons.mp hmem with heq | hstatus
      · cases heq
      · exact ((statusText_small ⟨l.status, l.small⟩).2.2 _ hstatus).2 rfl
  · exact l.unbroken hreason

theorem statusOf_text (l : StatusLine) : statusOf l.text = pure l.status := by
  obtain ⟨hparse, hlength, hchars⟩ := statusText_small ⟨l.status, l.small⟩
  obtain ⟨hne, hversion⟩ := versions_small _ l.known
  have hnonempty : statusText l.status ≠ [] := List.cons_ne_nil _ _
  obtain ⟨ws, hws⟩ : ∃ ws, Text.words Text.isWhitespace (statusText l.status ++ l.reason) =
    statusText l.status :: ws := by
    cases hreason : l.reason with
    | nil =>
      rw [List.append_nil]
      exact ⟨[], Text.words_of_no_sep hnonempty fun c hc => (hchars c hc).1⟩
    | cons c rest =>
      obtain rfl : c = ' ' := l.spaced c (by rw [hreason]; rfl)
      exact ⟨_, Text.words_word_sep hnonempty (fun c hc => (hchars c hc).1) rfl rest⟩
  have hwords : Text.words Text.isWhitespace l.text = l.version :: statusText l.status :: ws := by
    rw [StatusLine.text, List.append_assoc, List.cons_append,
      Text.words_word_sep hne (fun c hc => (hversion c hc).1) rfl, hws]
  unfold statusOf
  rw [hwords]
  dsimp only
  have hfine : ¬ (l.version ∉ versions ∨ (statusText l.status).utf8.length ≠ 3) := by
    rintro (hbad | hbad)
    · exact hbad l.known
    · exact hbad hlength
  rw [if_neg hfine]
  exact congrArg orRefuse hparse

theorem announce_silent {h : Header} (hsilent : h.Silent) (seen : Announced) :
    announce seen h.line = pure seen := by
  unfold announce
  rw [h.splitOnce_line, orRefuse_some, pure_bind]
  dsimp only
  rw [if_neg (Bool.eq_false_iff.mp hsilent.1), if_neg (Bool.eq_false_iff.mp hsilent.2)]

theorem announce_silents {hs : List Header} (hsilent : ∀ h ∈ hs, h.Silent) (seen : Announced) :
    (hs.map Header.line).foldlM announce seen = pure seen := by
  induction hs with
  | nil => rfl
  | cons h hs ih =>
    rw [List.map_cons, List.foldlM_cons, announce_silent (hsilent h List.mem_cons_self), pure_bind]
    exact ih fun h' hmem => hsilent h' (List.mem_cons_of_mem h hmem)

/-- What the framing's header announces. -/
def Framing.announces : Framing → Announced
  | .length body => ⟨some body.length, false⟩
  | .chunked .. => ⟨none, true⟩

theorem announce_framing {f : Framing} {h : Header} (hf : f.AnnouncedBy h) :
    announce ⟨none, false⟩ h.line = pure f.announces := by
  unfold announce
  rw [h.splitOnce_line, orRefuse_some, pure_bind]
  cases f with
  | length body =>
    obtain ⟨hname, hvalue⟩ := hf
    simp only [hname, hvalue, if_true, orRefuse_some, pure_bind]
    rfl
  | chunked chunks last trailer =>
    obtain ⟨hname, hvalue⟩ := hf
    have hother : ¬ eqIgnoreAsciiCase h.name "content-length" = true := by
      intro hboth
      have hnames := (beq_iff_eq.mp hboth).symm.trans (beq_iff_eq.mp hname)
      exact absurd hnames (by decide)
    dsimp only
    rw [if_neg hother, if_pos hname, if_neg (by simp [hvalue])]
    rfl

theorem announce_response (r : Response) :
    (r.lines.map Header.line).foldlM announce ⟨none, false⟩ = pure r.framing.announces := by
  have hbefore := announce_silents (fun h hmem => r.silent h (List.mem_append_left _ hmem)) ⟨none, false⟩
  have hafter := announce_silents (fun h hmem =>
    r.silent h (List.mem_append_right _ hmem)) r.framing.announces
  rw [Response.lines, List.map_append, List.map_cons, List.foldlM_append, hbefore,
    pure_bind, List.foldlM_cons,
    announce_framing r.announced, pure_bind]
  exact hafter

/-- A response decodes to its status and body. -/
theorem decode_bytes (r : Response) (hcap : maxBody < 2 ^ 63) (hhead : r.head.utf8.length ≤ 8192)
    (hbody : r.framing.body.length ≤ maxBody) : decode maxBody r.bytes =
      pure (r.first.status, r.framing.body) := by
  have hplace : position blankLine r.bytes = some r.head.utf8.length := by
    have hlines := position_blankLine r.lines r.framing.bytes
    rw [Response.bytes, Response.head, Text.utf8_append, List.append_assoc, List.append_assoc,
      ← List.append_assoc (headerText _).utf8,
      blankLine, position_skip (cr_not_mem r.first.cr_not_mem), ← blankLine, hlines]
    simp only [Option.map_some, List.length_append]
    congr 1
    omega
  have hslice : slice 0 r.head.utf8.length r.bytes = pure r.head.utf8 := by
    rw [slice_eq (Nat.zero_le _) (by simp [Response.bytes]), Response.bytes, List.append_assoc,
      List.take_left, List.drop_zero]
  have hrest : sliceFrom (r.head.utf8.length + 4) r.bytes = pure r.framing.bytes := by
    have hlength : (r.head.utf8 ++ blankLine).length = r.head.utf8.length + 4 := List.length_append
    rw [Response.bytes, ← hlength, sliceFrom_eq (by simp), List.drop_left]
  unfold decode
  simp only [hplace, orRefuse_some, pure_bind, hslice, Text.fromUtf8_utf8, hrest]
  rw [if_neg (by omega), Response.head, splitCrlf_lines r.first.cr_not_mem]
  simp only [statusOf_text, pure_bind, announce_response]
  cases hframing : r.framing with
  | length body =>
    rw [hframing] at hbody
    have hfits : ¬ (maxBody < body.length) := by
      have : body.length ≤ maxBody := hbody
      omega
    simp [Framing.announces, Framing.bytes, Framing.body, hfits]
  | chunked chunks last trailer =>
    rw [hframing] at hbody
    have hfits : ¬ (maxBody < (chunks.flatMap Chunk.data).length) := by
      have : (chunks.flatMap Chunk.data).length ≤ maxBody := hbody
      omega
    have hroom : ([] : Bytes).length + (chunks.flatMap Chunk.data).length ≤ maxBody := by
      rw [List.length_nil, Nat.zero_add]
      exact hbody
    have hdata := dechunk_bytes hcap last trailer (Nat.lt_succ_self _) hroom
    simp only [Framing.announces, if_true, Option.isSome_none, Bool.false_eq_true, if_false, hdata,
      pure_bind, List.nil_append,
      Framing.body]
    refine if_neg ?_
    rintro (hlong | hother)
    · exact hfits hlong
    · cases hother

end

/-! ## The exchange -/

section

variable {peer : Peer} {limit maxBody fuel turn : Nat} {bytes rest : Bytes}

/-- Every turn takes time or brings bytes, so enough steps suffice. -/
theorem receive_ends (hbytes : bytes.length ≤ 8192 + 2 * maxBody)
    (hfuel : limit - peer.elapsed turn + (8193 + 2 * maxBody - bytes.length) < fuel) :
    ∃ r, receive peer limit maxBody fuel turn bytes = some r := by
  induction fuel generalizing turn bytes with
  | zero => omega
  | succ fuel ih =>
    have hclock := peer.monotone turn
    unfold receive
    split
    next => exact ⟨_, rfl⟩
    next =>
      split
      next => exact ⟨_, rfl⟩
      next htime =>
        split
        next => exact ⟨_, rfl⟩
        next chunk _ hchunk _ =>
          split
          next => exact ⟨_, rfl⟩
          next hfits =>
            have hpositive : chunk.length ≠ 0 := fun hzero => hchunk (List.length_eq_zero_iff.mp hzero)
            rw [List.length_append] at hfits
            refine ih ?_ ?_
            · rw [List.length_append]
              omega
            · rw [List.length_append]
              omega
        next => exact ⟨_, rfl⟩
        next kind hkind hread =>
          have hwait : (peer.read turn).waits = true := by
            rw [hread]
            cases kind with
            | other => exact absurd rfl hkind
            | timedOut => rfl
            | wouldBlock => rfl
          have hlater := peer.waiting turn hwait
          exact ih hbytes (by omega)

/-- What the peer delivers is received. -/
theorem receive_delivered (h : Delivers peer limit turn rest)
    (hfits : bytes.length + rest.length ≤ 8192 + 2 * maxBody) {r : Except Error Bytes}
    (hrun : receive peer limit maxBody fuel turn bytes = some r) : r = .ok (bytes ++ rest) := by
  induction h generalizing fuel bytes with
  | closed hstop htime hread =>
    cases fuel with
    | zero => cases hrun
    | succ fuel =>
      rw [receive, hstop, if_neg (by decide), if_neg (by omega), hread] at hrun
      rw [List.append_nil]
      exact (Option.some.inj hrun).symm
  | @part turn chunk rest fits hstop htime hread hchunk _ ih =>
    cases fuel with
    | zero => cases hrun
    | succ fuel =>
      rw [List.length_append] at hfits
      rw [receive, hstop, if_neg (by decide), if_neg (by omega), hread] at hrun
      cases chunk with
      | nil => exact absurd rfl hchunk
      | cons b chunk =>
        dsimp only at hrun
        rw [if_neg (by rw [List.length_append]; omega)] at hrun
        rw [← List.append_assoc]
        exact ih (by rw [List.length_append]; omega) hrun
  | @wait turn rest hstop htime hread _ ih =>
    cases fuel with
    | zero => cases hrun
    | succ fuel =>
      rw [receive, hstop, if_neg (by decide), if_neg (by omega)] at hrun
      match hr : peer.read turn, hread with
      | .failed .timedOut, _ =>
        rw [hr] at hrun
        exact ih hfits hrun
      | .failed .wouldBlock, _ =>
        rw [hr] at hrun
        exact ih hfits hrun

/-- What is received was delivered. -/
theorem delivers_of_receive {all : Bytes}
    (hrun : receive peer limit maxBody fuel turn bytes = some (.ok all)) :
    ∃ rest, all = bytes ++ rest ∧ Delivers peer limit turn rest := by
  induction fuel generalizing turn bytes with
  | zero => cases hrun
  | succ fuel ih =>
    unfold receive at hrun
    split at hrun
    next => cases hrun
    next hstop =>
      split at hrun
      next => cases hrun
      next htime =>
        have hstop : peer.stop turn = false := by simpa using hstop
        have htime : peer.elapsed turn < limit := by omega
        split at hrun
        next hread =>
          obtain rfl := Except.ok.inj (Option.some.inj hrun)
          exact ⟨[], (List.append_nil bytes).symm, .closed hstop htime hread⟩
        next chunk _ hchunk hread =>
          split at hrun
          next => cases hrun
          next =>
            obtain ⟨rest, rfl, hrest⟩ := ih hrun
            exact ⟨chunk ++ rest, List.append_assoc .., .part hstop htime hread hchunk hrest⟩
        next => cases hrun
        next kind hkind hread =>
          obtain ⟨rest, rfl, hrest⟩ := ih hrun
          refine ⟨rest, rfl, .wait hstop htime ?_ hrest⟩
          rw [hread]
          cases kind with
          | other => exact absurd rfl hkind
          | timedOut => rfl
          | wouldBlock => rfl

/-- Enough steps for every exchange. -/
def enough (limit maxBody : Nat) : Nat := limit + 8194 + 2 * maxBody

theorem Sure.returns {α : Type} {x : Step α} {post : α → Prop} (h : Sure x post) : ∃ r, x.run = .ok r := by
  match x, h with
  | .error _, h => exact h.elim
  | .ok r, _ => exact ⟨r, rfl⟩

theorem Sure.of_ok {α : Type} {x : Step α} {post : α → Prop} {a : α} (h : Sure x post)
    (hx : x.run = .ok (.ok a)) : post a := by
  unfold Sure at h
  rw [hx] at h
  exact h

theorem exchange_ends (hcap : 8192 + 2 * maxBody + 1024 < 2 ^ 63) (hfuel : enough limit maxBody ≤ fuel) :
    ∃ r, exchange fuel peer limit maxBody = some (.ok r) := by
  unfold exchange
  split
  next => exact ⟨_, rfl⟩
  next =>
    split
    next => exact ⟨_, rfl⟩
    next => exact ⟨_, rfl⟩
    next => exact ⟨_, rfl⟩
    next => exact ⟨_, rfl⟩
    next =>
      rw [if_neg (by omega)]
      obtain ⟨r, hr⟩ : ∃ r, receive peer limit maxBody fuel 0 [] = some r := by
        refine receive_ends (Nat.zero_le _) ?_
        unfold enough at hfuel
        rw [List.length_nil]
        omega
      rw [hr]
      match r with
      | .error e => exact ⟨_, rfl⟩
      | .ok [] => exact ⟨_, rfl⟩
      | .ok (b :: bytes) =>
        have hsure : Sure (decode maxBody (b :: bytes)) fun r => Framed (b :: bytes) r.2 :=
          sure_decode (by omega)
        obtain ⟨r, hr⟩ := hsure.returns
        exact ⟨r, congrArg some hr⟩

/-- The exchange returns; a response that fits decodes to its status and body; and what is accepted
frames its body. -/
theorem exchange_decodes (hcap : 8192 + 2 * maxBody + 1024 < 2 ^ 63) (peer : Peer) (limit : Nat) :
    (∀ fuel, enough limit maxBody ≤ fuel → ∃ r, exchange fuel peer limit maxBody = some (.ok r)) ∧
      (∀ (r : Response) (fuel : Nat), enough limit maxBody ≤ fuel → peer.Takes →
        Delivers peer limit 0 r.bytes →
        r.head.utf8.length ≤ 8192 → r.framing.body.length ≤ maxBody → r.bytes.length ≤ 8192 + 2 * maxBody →
        exchange fuel peer limit maxBody = some (.ok (.ok (r.first.status, r.framing.body)))) ∧
      ∀ fuel status body, exchange fuel peer limit maxBody = some (.ok (.ok (status, body))) →
        ∃ bytes, Delivers peer limit 0 bytes ∧ Framed bytes body := by
  refine ⟨fun fuel hfuel => exchange_ends hcap hfuel,
    fun r fuel hfuel htakes hdelivers hhead hbody hbytes => ?_,
    fun fuel status body hrun => ?_⟩
  · obtain ⟨received, hreceived⟩ : ∃ received, receive peer limit maxBody fuel 0 [] = some received := by
      refine receive_ends (Nat.zero_le _) ?_
      unfold enough at hfuel
      rw [List.length_nil]
      omega
    have hall := receive_delivered hdelivers (by rwa [List.length_nil, Nat.zero_add]) hreceived
    rw [List.nil_append] at hall
    unfold exchange
    rw [htakes.stop, if_neg (by decide), htakes.connect, htakes.setReadTimeout,
      htakes.setWriteTimeout, htakes.write]
    dsimp only
    rw [if_neg (by omega), hreceived, hall]
    have hdecoded := decode_bytes r (by omega) hhead hbody
    cases hb : r.bytes with
    | nil => simp [Response.bytes, blankLine] at hb
    | cons b bytes =>
      rw [hb] at hdecoded
      dsimp only
      rw [hdecoded]
      rfl
  · unfold exchange at hrun
    split at hrun
    next => cases hrun
    next =>
      split at hrun
      next => cases hrun
      next => cases hrun
      next => cases hrun
      next => cases hrun
      next =>
        rw [if_neg (by omega)] at hrun
        split at hrun
        next => cases hrun
        next => cases hrun
        next => cases hrun
        next bytes _ hreceived =>
          obtain ⟨rest, hall, hdelivers⟩ := delivers_of_receive hreceived
          rw [List.nil_append] at hall
          subst hall
          have hsure : Sure (decode maxBody bytes) fun r => Framed bytes r.2 := sure_decode (by omega)
          exact ⟨bytes, hdelivers, hsure.of_ok (Option.some.inj hrun)⟩

end

/-- A peer that takes the request, sends these bytes at once and closes. -/
def sending (bytes : Bytes) (fits : bytes.length ≤ 1024) : Peer where
  connect := .ok ()
  setReadTimeout := .ok ()
  setWriteTimeout := .ok ()
  write := .ok ()
  stopBefore := false
  stop _ := false
  elapsed turn := turn
  read
    | 0 => .data bytes fits
    | _ + 1 => .data [] (by decide)
  monotone turn := Nat.le_succ turn
  waiting turn := fun _ => Nat.lt_succ_self turn

theorem delivers_sending {bytes : Bytes} (fits : bytes.length ≤ 1024) (hbytes : bytes ≠ []) :
    Delivers (sending bytes fits) 2 0 bytes := by
  have hclosed : Delivers (sending bytes fits) 2 1 [] := .closed rfl Nat.one_lt_two rfl
  have hall : Delivers (sending bytes fits) 2 0 (bytes ++ []) := .part rfl Nat.zero_lt_two rfl hbytes hclosed
  rwa [List.append_nil] at hall

/-- A response in two chunks, with an extension and a size in two spellings. -/
def twoChunks : Response where
  first :=
    { version := "HTTP/1.1", status := 200, reason := " OK", known := List.mem_cons_self, small := by decide
      spaced := by decide, unbroken := by decide }
  before := []
  header := ⟨"Transfer-Encoding", " chunked", by decide, by decide, by decide⟩
  after := []
  framing := .chunked
    [⟨[123], by decide, ⟨"1", ";a=b", by decide, by decide, by decide, by decide⟩⟩,
      ⟨[34, 125], by decide, ⟨"002", [], by decide, by decide, by decide, by decide⟩⟩]
    ⟨"0", [], by decide, by decide, by decide, by decide⟩ crlf
  silent := nofun
  announced := ⟨by decide, by decide⟩

/-- A peer that takes the request, sends these bytes with a wait between them and closes. -/
def sendingTwo (first second : Bytes) (fits : first.length ≤ 1024 ∧ second.length ≤ 1024) : Peer where
  connect := .ok ()
  setReadTimeout := .ok ()
  setWriteTimeout := .ok ()
  write := .ok ()
  stopBefore := false
  stop _ := false
  elapsed turn := turn
  read
    | 0 => .data first fits.1
    | 1 => .failed .wouldBlock
    | 2 => .data second fits.2
    | _ + 3 => .data [] (by decide)
  monotone turn := Nat.le_succ turn
  waiting turn := fun _ => Nat.lt_succ_self turn

theorem delivers_sendingTwo {first second : Bytes} (fits : first.length ≤ 1024 ∧ second.length ≤ 1024)
    (hfirst : first ≠ []) (hsecond : second ≠ []) :
    Delivers (sendingTwo first second fits) 4 0 (first ++ second) := by
  have hclosed : Delivers (sendingTwo first second fits) 4 3 [] := .closed rfl (Nat.lt_succ_self 3) rfl
  have hlast : Delivers (sendingTwo first second fits) 4 2 (second ++ []) :=
    .part rfl (show 2 < 4 by decide) rfl hsecond hclosed
  rw [List.append_nil] at hlast
  exact .part rfl (show 0 < 4 by decide) rfl hfirst (.wait rfl (show 1 < 4 by decide) rfl hlast)

theorem twoChunks_fits :
    (twoChunks.bytes.take 60).length ≤ 1024 ∧ (twoChunks.bytes.drop 60).length ≤ 1024 := by
  decide +kernel

/-- The first read ends inside a chunk. -/
def chunkPeer : Peer := sendingTwo (twoChunks.bytes.take 60) (twoChunks.bytes.drop 60) twoChunks_fits

theorem delivers_chunkPeer : Delivers chunkPeer 4 0 twoChunks.bytes := by
  have hall := delivers_sendingTwo twoChunks_fits (by decide +kernel) (by decide +kernel)
  rwa [List.take_append_drop] at hall

theorem exchange_decodes_chunked :
    exchange (enough 4 1024) chunkPeer 4 1024 = some (.ok (.ok (200, [123, 34, 125]))) ∧
      ∃ bytes, Delivers chunkPeer 4 0 bytes ∧ Framed bytes [123, 34, 125] := by
  obtain ⟨-, hdecodes, hframed⟩ := @exchange_decodes 1024 (by decide) chunkPeer 4
  have hlengths : twoChunks.head.utf8.length ≤ 8192 ∧ twoChunks.framing.body.length ≤ 1024 ∧
      twoChunks.bytes.length ≤ 8192 + 2 * 1024 := by
    decide +kernel
  have hexchange := hdecodes twoChunks (enough 4 1024) le_rfl ⟨rfl, rfl, rfl, rfl,
    rfl⟩ delivers_chunkPeer hlengths.1 hlengths.2.1
    hlengths.2.2
  exact ⟨hexchange, hframed _ _ _ hexchange⟩

/-- Whitespace before the extension of a chunk. -/
def spacedExtension : Bytes :=
  Text.utf8 "HTTP/1.1 200 OK\r\nTransfer-Encoding: chunked\r\n\r\n2 ;a=b\r\n\x7b\x7d\r\n0\r\n\r\n"

/-- A byte outside of UTF-8 in a header's value. -/
def obsText : Bytes :=
  Text.utf8 "HTTP/1.1 200 OK\r\nX-Origin: caf" ++ 0xE9 :: Text.utf8 "\r\nContent-Length: 2\r\n\r\n\x7b\x7d"

/-- These bytes, sent at once, are refused. -/
def Refused (bytes : Bytes) : Prop := ∃ fits : bytes.length ≤ 1024,
  exchange (enough 2 1024) (sending bytes fits) 2 1024 = some (.ok (.error .response))

instance (bytes : Bytes) : Decidable (Refused bytes) :=
  inferInstanceAs (Decidable (∃ fits : bytes.length ≤ 1024,
    exchange (enough 2 1024) (sending bytes fits) 2 1024 = some (.ok (.error .response))))

theorem legal_refused : Refused spacedExtension ∧ Refused obsText :=
  Text.of_literals₃ (P := fun s t u => Refused s.utf8 ∧ Refused (t.utf8 ++ 0xE9 :: u.utf8)) (by decide)

theorem spacedExtension_fits : spacedExtension.length ≤ 1024 := legal_refused.1.fst

theorem obsText_fits : obsText.length ≤ 1024 := legal_refused.2.fst

theorem spacedExtension_refused :
    exchange (enough 2 1024) (sending spacedExtension spacedExtension_fits) 2 1024 =
      some (.ok (.error .response)) :=
  legal_refused.1.snd

theorem obsText_refused :
    exchange (enough 2 1024) (sending obsText obsText_fits) 2 1024 = some (.ok (.error .response)) :=
      legal_refused.2.snd

/-- Both are whole responses with a body of two bytes, and both are refused. -/
theorem exchange_refuses_legal :
    (Delivers (sending spacedExtension spacedExtension_fits) 2 0 spacedExtension ∧
      exchange (enough 2 1024) (sending spacedExtension spacedExtension_fits) 2 1024 =
        some (.ok (.error .response))) ∧
    Delivers (sending obsText obsText_fits) 2 0 obsText ∧
      exchange (enough 2 1024) (sending obsText obsText_fits) 2 1024 = some (.ok (.error .response)) := by
  refine ⟨⟨delivers_sending _ ?_, spacedExtension_refused⟩, delivers_sending _ ?_, obsText_refused⟩
  · exact Text.of_literal (P := fun t => t.utf8 ≠ []) (by decide +kernel)
  · exact List.append_ne_nil_of_right_ne_nil _ (List.cons_ne_nil _ _)

end HomeStack.Exchange
