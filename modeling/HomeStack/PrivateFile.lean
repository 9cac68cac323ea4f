import HomeStack.Lib.Session
import HomeStack.Lib.Sha256

/-! The installer's private files on the desktop (`hs-cli`, `servers.rs`): `write_private` moves a
different file aside and writes in place, `ensure_api_token` keeps whatever is there. One path is
modelled, with the files next to it; a step may fail, and a call may stop anywhere. -/

namespace HomeStack.PrivateFile

inductive Ask
  | read
  | now
  | rename (aside : Text)
  | createDir
  | createNew
  | writeAll (text : Text)
  | exists
  /-- 32 bytes of `/dev/urandom`. -/
  | random

abbrev Ask.Answer : Ask → Type
  | .read => Except Text Text
  | .now => Nat
  | .rename _ | .createDir | .createNew | .writeAll _ => Except Text Unit
  | .exists => Bool
  | .random => Except Text { bytes : List Nat // bytes.length = 32 ∧ ∀ b ∈ bytes, b < 256 }

abbrev Op := ExceptT Text (Prog Ask Ask.Answer)

abbrev ask (q : Ask) : Op q.Answer := Prog.request q

/-- `NAME.replaced-<seconds>` -/
def asideOf (name : Text) (seconds : Nat) : Text := name ++ ".replaced-" ++ Text.ofNat seconds

/-- A new file at the path. -/
def create (text : Text) (kept : Option Text) : Op (Option Text) := do
  Prog.ofExcept (← ask .createDir)
  Prog.ofExcept (← ask .createNew)
  Prog.ofExcept (← ask (.writeAll text))
  return kept

/-- The file at the path is moved to the name of this second. -/
def setAside (name : Text) : Op Text := do
  let aside := asideOf name (← ask .now)
  Prog.ofExcept (← ask (.rename aside))
  return aside

def writePrivate (name text : Text) : Op (Option Text) := do
  match ← ask .read with
  | .ok old =>
    if old = text then return none
    create text (some (← setAside name))
  | .error _ => create text none

def ensureApiToken (name : Text) : Op Bool := do
  if ← ask .exists then return false
  let bytes ← Prog.ofExcept (← ask .random)
  let _ ← writePrivate name (Sha256.hex bytes.1 ++ ['\n'])
  return true

/-- A call on the path. -/
inductive Request
  | write (text : Text)
  | token

def Request.run (name : Text) : Request → Op Bool
  | .write text => do
    let _ ← writePrivate name text
    return true
  | .token => ensureApiToken name

/-! ## The directory -/

structure World where
  disk : Text → Option Bytes
  clock : Nat
  /-- The texts that a call wrote completely, or that were there at first. -/
  written : List Bytes
  /-- The file at the path was made by a write that is not over, or was cut short. -/
  cut : Bool

inductive Idle : World → World → Prop
  | tick {w : World} (clock : Nat) : w.clock ≤ clock → Idle w { w with clock := clock }

/-- Where a call may go on: the replacements and the looks at the path that are taken to happen. -/
structure Allowed where
  rename : World → Text → Prop
  look : World → Prop

/-- What a step may be answered. A write that fails, or in which the process stops, leaves any part of
its text. -/
def answers (name : Text) (allowed : Allowed) : World → (q : Ask) → q.Answer → World → Prop
  | w, .read, r, t => t = w ∧ ∀ old, r = .ok old → w.disk name = some old.utf8
  | w, .now, r, t => t = w ∧ r = w.clock
  | w, .rename aside, r, t =>
    (∃ e, r = .error e ∧ t = w) ∨
      ∃ bytes, w.disk name = some bytes ∧ allowed.rename w aside ∧
        t = { w with
          disk := Function.update (Function.update w.disk aside (some bytes)) name none, cut := false }
  | w, .createDir, _, t => t = w
  | w, .createNew, r, t =>
    (∃ e, r = .error e ∧ t = w) ∨
      w.disk name = none ∧ t = { w with disk := Function.update w.disk name (some []), cut := true }
  | w, .writeAll text, r, t =>
    w.cut = true ∧
      ((r = .ok () ∧ t = { w with
          disk := Function.update w.disk name (some text.utf8), written :=
            text.utf8 :: w.written, cut := false }) ∨
        ∃ e part, r = .error e ∧ part <+: text.utf8 ∧
          t = { w with disk := Function.update w.disk name (some part) })
  | w, .exists, r, t => t = w ∧ allowed.look w ∧ (r = true → (w.disk name).isSome)
  | w, .random, _, t => t = w

def directory (name : Text) (allowed : Allowed) : Prog.Env Ask Ask.Answer World := ⟨answers name allowed⟩

/-- At first the path is absent or holds a complete text. -/
structure Fresh (name : Text) (w : World) : Prop where
  written : w.written = (w.disk name).toList
  cut : w.cut = false

/-- The worlds during and between calls. -/
abbrev drifting (name : Text) (allowed : Allowed) : Prog.Env Ask Ask.Answer World :=
  (directory name allowed).drifting Idle

/-- Calls on the path, one after another. -/
def Between (name : Text) (allowed : Allowed) : World → Prop :=
  Prog.Session (directory name allowed) Idle (fun w t => t = w)
    (fun request : Request => (request.run name).run) (Fresh name)

/-- Every such text is at the path or next to it. -/
def NothingLost (name : Text) (w : World) : Prop :=
  ∀ bytes ∈ w.written, w.disk name = some bytes ∨ ∃ seconds, w.disk (asideOf name seconds) = some bytes

/-- The path holds such a text. -/
def Whole (name : Text) (w : World) : Prop := ∃ bytes ∈ w.written, w.disk name = some bytes

/-- No file is replaced by another one, and the token is looked for where no write was cut short. -/
def careful (name : Text) : Allowed where
  rename w aside := w.disk aside = none ∨ w.disk aside = w.disk name
  look w := w.cut = false

/-! ## What every step keeps -/

section

variable {name : Text} {w t : World}

theorem asideOf_ne (seconds : Nat) : asideOf name seconds ≠ name := by
  intro h
  have := congrArg List.length h
  simp [asideOf] at this

/-- A complete text is at the path or next to it, it is next to it while a write is not over, and
otherwise the path holds nothing else. -/
structure Kept (name : Text) (w : World) : Prop where
  lost : NothingLost name w
  aside : w.cut = true → ∀ bytes ∈ w.written, ∃ seconds, w.disk (asideOf name seconds) = some bytes
  whole : w.cut = false → ∀ bytes, w.disk name = some bytes → bytes ∈ w.written

theorem Fresh.kept (h : Fresh name w) : Kept name w := by
  refine ⟨fun bytes hb => ?_, fun hcut => ?_, fun _ bytes hb => ?_⟩
  · rw [h.written, Option.mem_toList] at hb
    exact Or.inl hb
  · rw [h.cut] at hcut
    cases hcut
  · rw [h.written, Option.mem_toList]
    exact hb

theorem stable_kept : Prog.Stable Idle (Kept name) := by
  rintro w t h ⟨clock, -⟩
  exact ⟨h.lost, h.aside, h.whole⟩

/-- The files next to the path stay when the path changes. -/
theorem aside_update {disk : Text → Option Bytes} {bytes : Bytes} (x : Option Bytes)
    (h : ∃ seconds, disk (asideOf name seconds) = some bytes) :
    ∃ seconds, Function.update disk name x (asideOf name seconds) = some bytes := by
  obtain ⟨seconds, hs⟩ := h
  exact ⟨seconds, (Function.update_of_ne (asideOf_ne seconds) ..).trans hs⟩

theorem kept_rename {seconds : Nat} {bytes : Bytes} (h : Kept name w) (hbytes : w.disk name = some bytes)
    (hfree : w.disk (asideOf name seconds) = none ∨ w.disk (asideOf name seconds) = w.disk name) :
    Kept name { w with
      disk := Function.update (Function.update w.disk (asideOf name seconds) (some bytes)) name none,
        cut := false } := by
  refine ⟨fun x hx => Or.inr (aside_update none ?_), (fun hcut => nomatch hcut), fun _ x hx => ?_⟩
  · rcases h.lost x hx with hpath | ⟨other, hother⟩
    · refine ⟨seconds, ?_⟩
      rw [Function.update_self, ← hbytes, hpath]
    · by_cases hsame : asideOf name other = asideOf name seconds
      · refine ⟨other, ?_⟩
        rw [hsame] at hother ⊢
        rcases hfree with hnone | hsome
        · rw [hnone] at hother
          cases hother
        · rw [Function.update_self, ← hbytes, ← hsome, hother]
      · exact ⟨other, (Function.update_of_ne hsame ..).trans hother⟩
  · dsimp only at hx
    rw [Function.update_self] at hx
    cases hx

theorem kept_create (h : Kept name w) (hnone : w.disk name = none) :
    Kept name { w with disk := Function.update w.disk name (some []), cut := true } := by
  have haside : ∀ bytes ∈ w.written, ∃ seconds, w.disk (asideOf name seconds) = some bytes := by
    intro bytes hb
    rcases h.lost bytes hb with hpath | haside
    · rw [hnone] at hpath
      cases hpath
    · exact haside
  exact ⟨fun bytes hb => Or.inr (aside_update _ (haside bytes hb)),
    fun _ bytes hb => aside_update _ (haside bytes hb),
    fun hcut => nomatch hcut⟩

theorem kept_write (h : Kept name w) (hcut : w.cut = true) (text : Bytes) :
    Kept name { w with
      disk := Function.update w.disk name (some text), written := text :: w.written, cut := false } := by
  refine ⟨fun bytes hb => ?_, (fun hcut => nomatch hcut), fun _ bytes hb => ?_⟩
  · rcases List.mem_cons.mp hb with rfl | hb
    · exact Or.inl (Function.update_self ..)
    · exact Or.inr (aside_update _ (h.aside hcut bytes hb))
  · dsimp only at hb
    rw [Function.update_self] at hb
    obtain rfl := Option.some.inj hb
    exact List.mem_cons_self

theorem kept_part (h : Kept name w) (hcut : w.cut = true) (part : Bytes) :
    Kept name { w with disk := Function.update w.disk name (some part) } := by
  refine ⟨fun bytes hb => Or.inr (aside_update _ (h.aside hcut bytes hb)),
    fun _ bytes hb => aside_update _ (h.aside hcut bytes hb),
    fun hfalse => ?_⟩
  rw [show w.cut = false from hfalse] at hcut
  cases hcut

/-- The questions of a call: what is renamed goes next to the path. -/
def Near (name : Text) : Ask → Prop
  | .rename aside => ∃ seconds, aside = asideOf name seconds
  | _ => True

theorem asks_create (text : Text) (kept : Option Text) : (create text kept).run.Asks (Near name) := by
  refine Prog.asks_bind (Prog.asks_request trivial) fun r => Prog.asks_bind Prog.asks_ofExcept fun _ => ?_
  refine Prog.asks_bind (Prog.asks_request trivial) fun r => Prog.asks_bind Prog.asks_ofExcept fun _ => ?_
  exact Prog.asks_bind (Prog.asks_request trivial) fun r => Prog.asks_bind Prog.asks_ofExcept fun _ => trivial

theorem asks_setAside : (setAside name).run.Asks (Near name) := by
  refine Prog.asks_bind (Prog.asks_request trivial) fun seconds => ?_
  exact Prog.asks_bind (Prog.asks_request ⟨seconds, rfl⟩) fun r =>
    Prog.asks_bind Prog.asks_ofExcept fun _ => trivial

theorem asks_writePrivate (text : Text) : (writePrivate name text).run.Asks (Near name) := by
  refine Prog.asks_bind (Prog.asks_request trivial) fun r => ?_
  cases r with
  | error e => exact asks_create text none
  | ok old =>
    dsimp only
    split
    · trivial
    · exact Prog.asks_bind asks_setAside fun aside => asks_create text (some aside)

theorem asks_run (request : Request) : (request.run name).run.Asks (Near name) := by
  cases request with
  | write text => exact Prog.asks_bind (asks_writePrivate text) fun _ => trivial
  | token =>
    refine Prog.asks_bind (Prog.asks_request trivial) fun found => ?_
    cases found with
    | true => trivial
    | false =>
      refine Prog.asks_bind (Prog.asks_request trivial) fun r =>
        Prog.asks_bind Prog.asks_ofExcept fun bytes => ?_
      exact Prog.asks_bind (asks_writePrivate _) fun _ => trivial

theorem answers_kept {q : Ask} {r : q.Answer} (hq : Near name q) (h : Kept name w)
    (hn : (directory name (careful name)).next w q r t) : Kept name t := by
  cases q with
  | read | now | «exists» =>
    obtain ⟨rfl, -⟩ := hn
    exact h
  | createDir | random =>
    obtain rfl := hn
    exact h
  | rename aside =>
    obtain ⟨seconds, rfl⟩ := hq
    rcases hn with ⟨e, -, rfl⟩ | ⟨bytes, hbytes, hfree, rfl⟩
    · exact h
    · exact kept_rename h hbytes hfree
  | createNew =>
    rcases hn with ⟨e, -, rfl⟩ | ⟨hnone, rfl⟩
    · exact h
    · exact kept_create h hnone
  | writeAll text =>
    obtain ⟨hcut, ⟨-, rfl⟩ | ⟨e, part, -, -, rfl⟩⟩ := hn
    · exact kept_write h hcut text.utf8
    · exact kept_part h hcut part

theorem kept_next {s t : World} {q : Ask} {r : q.Answer} (hq : Near name q) (h : Kept name s)
    (hn : (drifting name (careful name)).next s q r t) : Kept name t :=
  Prog.Env.drifting_next stable_kept stable_kept (fun _ _ hs hn => answers_kept hq hs hn) h hn

/-- Every call keeps the texts, wherever it stops. -/
theorem wp_kept (request : Request) (h : Kept name w) :
    Prog.wp (drifting name (careful name)) (fun s _ => Kept name s)
      (request.run name).run w fun _ => Kept name :=
  Prog.wp_inv (asks_run request) h (fun _ _ _ _ hq hs hn => kept_next hq hs hn)
    (fun _ _ _ hs => hs) fun _ _ ht => ht

theorem between_kept (h : Between name (careful name) w) : Kept name w := by
  refine Prog.Session.inv (K := Kept name) (fun w hw => hw.kept) stable_kept
    (fun request w hw => wp_kept request hw) ?_ h
  rintro w t hw rfl
  exact hw

/-! ## Tokens -/

theorem stable_whole : Prog.Stable Idle (Whole name) := by
  rintro w t h ⟨clock, -⟩
  exact h

theorem stable_uncut : Prog.Stable Idle fun w => Kept name w ∧ w.cut = false := by
  rintro w t ⟨h, hcut⟩ ⟨clock, hclock⟩
  exact ⟨stable_kept _ _ h (.tick clock hclock), hcut⟩

/-- The file that a call has made holds its text. -/
theorem wpe_create (text : Text) (kept : Option Text) :
    Prog.wpe (drifting name (careful name)) (fun _ _ => True) (create text kept) w
      (fun _ t => Whole name t) fun _ _ => True := by
  refine Prog.wpe_request_bind trivial fun r t _ => Prog.wpe_ofExcept_bind (fun _ _ => ?_) fun _ _ => trivial
  refine Prog.wpe_request_bind trivial fun r u _ => Prog.wpe_ofExcept_bind (fun _ _ => ?_) fun _ _ => trivial
  refine Prog.wpe_request_bind trivial fun r v hwrite =>
    Prog.wpe_ofExcept_bind (fun _ hr => ?_) fun _ _ => trivial
  subst hr
  have hwhole := Prog.Env.drifting_next (J := fun _ => True) (fun _ _ _ _ => trivial) (@stable_whole name)
    (fun s t _ hn => by
      obtain ⟨-, ⟨-, rfl⟩ | ⟨e, part, hr, -, -⟩⟩ := hn
      · exact ⟨text.utf8, List.mem_cons_self, Function.update_self ..⟩
      · cases hr) trivial hwrite
  exact hwhole

/-- Where no write was cut short, the path holds a complete text after a write. -/
theorem wpe_writePrivate (text : Text) (h : Kept name w ∧ w.cut = false) :
    Prog.wpe (drifting name (careful name)) (fun _ _ => True) (writePrivate name text) w
      (fun _ t => Whole name t) fun _ _ => True := by
  refine Prog.wpe_request_bind trivial fun r t hread => ?_
  cases r with
  | error e => exact wpe_create text none
  | ok old =>
    dsimp only
    split
    · have hwhole := Prog.Env.drifting_next stable_uncut stable_whole (fun s t hs hn => by
          obtain ⟨rfl, hold⟩ := hn
          exact ⟨old.utf8, hs.1.whole hs.2 _ (hold old rfl), hold old rfl⟩) h hread
      exact hwhole
    · refine Prog.wpe_bind.mpr ?_
      refine Prog.wpe_request_bind trivial fun seconds u _ => Prog.wpe_request_bind trivial fun r v _ =>
        Prog.wpe_ofExcept_bind (fun _ _ => ?_) fun _ _ => trivial
      exact wpe_create text _

theorem wpe_ensureApiToken (h : Kept name w) :
    Prog.wpe (drifting name (careful name)) (fun _ _ => True) (ensureApiToken name) w
      (fun _ t => Whole name t) fun _ _ => True := by
  refine Prog.wpe_request_bind trivial fun found t hlook => ?_
  have huncut := Prog.Env.drifting_next stable_kept
    (stable_uncut.and (K := fun w => found = true → (w.disk name).isSome) fun w t _ hsome
      (hstep : Idle w t) => by
      obtain ⟨clock, -⟩ := hstep
      exact hsome)
    (fun s t hs hn => by
      obtain ⟨rfl, hcut, hsome⟩ := hn
      exact ⟨⟨hs, hcut⟩, hsome⟩) h hlook
  cases found with
  | true =>
    obtain ⟨bytes, hbytes⟩ := Option.isSome_iff_exists.mp (huncut.2 rfl)
    exact ⟨bytes, huncut.1.1.whole huncut.1.2 bytes hbytes, hbytes⟩
  | false =>
    refine Prog.wpe_request_bind trivial fun r u hrandom =>
      Prog.wpe_ofExcept_bind (fun bytes _ => ?_) fun _ _ => trivial
    have hstill := Prog.Env.drifting_next stable_uncut stable_uncut
      (fun s t hs hn => by obtain rfl := hn; exact hs) huncut.1 hrandom
    exact Prog.wpe_bind.mpr (Prog.wpe_mono (wpe_writePrivate _ hstill)
      (fun _ _ hwhole => hwhole) fun _ _ he => he)

/-- Every text that was there at first or that a call wrote completely is at the path or next to it in
every world that is reached, and after `ensure_api_token` the path holds such a text, if no replacement
hits the file of another one and no token is looked for where a write was cut short. -/
theorem files_kept {request : Request} {o : Option (Except Text Bool)}
    (hbetween : Between name (careful name) w)
    (hrun : Prog.Exec (drifting name (careful name)) (request.run name).run w o t) :
    NothingLost name t ∧ (request = .token → ∀ made, o = some (.ok made) → Whole name t) := by
  have hw := between_kept hbetween
  refine ⟨(Prog.wp_reached (wp_kept request hw) hrun).lost, ?_⟩
  rintro rfl made rfl
  have htoken : Prog.Exec (drifting name (careful name)) (ensureApiToken name).run w (some (.ok made)) t :=
    hrun
  have hwhole := Prog.wp_done (wpe_ensureApiToken hw) htoken
  exact hwhole

end

/-! ## Replacements within a second -/

section

open Prog

/-- Whatever happens is taken to happen. -/
def anyhow : Allowed := ⟨fun _ _ => True, fun _ => True⟩

variable {name text old : Text} {w t u : World} {α : Type} {E : Env Ask Ask.Answer World}
  {o : Option (Except Text α)}

/-- The file at the path moved to the name of this second, and the text in its place. -/
def replaced (name old text : Text) (w : World) : World where
  disk := Function.update (Function.update (Function.update
    (Function.update w.disk (asideOf name w.clock) (some old.utf8))
    name none) name (some [])) name (some text.utf8)
  clock := w.clock
  written := text.utf8 :: w.written
  cut := false

theorem exec_replaced {allowed : Allowed} (hfree : allowed.rename w (asideOf name w.clock))
    (hold : w.disk name = some old.utf8) (hne : old ≠ text) :
    Exec (drifting name allowed) (Request.run name (.write text)).run w (some (.ok true))
    (replaced name old text w) := by
  refine exec_request_bind (r := .ok old) (Env.next_drifting ⟨rfl, fun _ h => Except.ok.inj h ▸ hold⟩) ?_
  show Exec _ ((if old = text then (pure none : Op (Option Text))
    else setAside name >>= fun aside => create text (some aside)) >>= fun _ => (pure true : Op Bool)).run _ _ _
  rw [if_neg hne]
  refine exec_request_bind (r := w.clock) (Env.next_drifting ⟨rfl, rfl⟩) ?_
  refine exec_request_bind (r := .ok ()) (Env.next_drifting (Or.inr ⟨_, hold, hfree, rfl⟩)) ?_
  refine exec_request_bind (r := .ok ()) (Env.next_drifting rfl) ?_
  refine exec_request_bind (r := .ok ()) (Env.next_drifting (Or.inr ⟨Function.update_self .., rfl⟩)) ?_
  refine exec_request_bind (r := .ok ()) (Env.next_drifting ⟨rfl, Or.inl ⟨rfl, rfl⟩⟩) ?_
  exact Exec.done _ _

theorem replaced_disk : (replaced name old text w).disk =
    Function.update (Function.update w.disk (asideOf name w.clock) (some old.utf8)) name
      (some text.utf8) := by
  unfold replaced
  rw [Function.update_idem, Function.update_idem]

theorem replaced_path : (replaced name old text w).disk name = some text.utf8 := by
  rw [replaced_disk, Function.update_self]

theorem replaced_aside : (replaced name old text w).disk (asideOf name w.clock) = some old.utf8 := by
  rw [replaced_disk, Function.update_of_ne (asideOf_ne _), Function.update_self]

theorem replaced_other {seconds : Nat} (h : asideOf name seconds ≠ asideOf name w.clock) :
    (replaced name old text w).disk (asideOf name seconds) = w.disk (asideOf name seconds) := by
  rw [replaced_disk, Function.update_of_ne (asideOf_ne _), Function.update_of_ne h]

/-- The path holds one complete text, and nothing is next to it. -/
def holding (name text : Text) : World :=
  ⟨Function.update (fun _ => none) name (some text.utf8), 0, [text.utf8], false⟩

theorem holding_disk (name text : Text) : (holding name text).disk name = some text.utf8 := by
  simp [holding]

theorem holding_aside (name text : Text) (seconds : Nat) :
    (holding name text).disk (asideOf name seconds) = none := by
  simp [holding, Function.update_of_ne (asideOf_ne seconds)]

theorem holding_fresh (name text : Text) : Fresh name (holding name text) :=
  ⟨by simp [holding], rfl⟩

/-- A third text within a second: the first one is gone. -/
theorem files_lost : ¬ ∀ (name : Text) (w t : World) (request : Request) (o : Option (Except Text Bool)),
    Between name anyhow w → Exec (drifting name anyhow) (request.run name).run w o t →
    NothingLost name t ∧ (request = .token → ∀ made, o = some (.ok made) → Whole name t) := by
  intro h
  have hfirst : Exec (drifting "f" anyhow) (Request.run "f" (.write "B")).run
      (holding "f" "A") (some (.ok true))
      (replaced "f" "A" "B" (holding "f" "A")) := exec_replaced trivial (holding_disk "f" "A") (by decide)
  have hsecond := @exec_replaced "f" "C" "B"
    (replaced "f" "A" "B" (holding "f" "A")) anyhow trivial replaced_path (by decide)
  have hbetween : Between "f" anyhow (replaced "f" "A" "B" (holding "f" "A")) :=
    .run (.write "B") (.start (holding_fresh "f" "A")) hfirst rfl
  rcases (h "f" _ _ (.write "C") _ hbetween hsecond).1 (Text.utf8 "A")
    (by simp [replaced, holding]) with hpath | ⟨seconds, haside⟩
  · rw [replaced_path] at hpath
    exact absurd hpath (by decide)
  · by_cases hsame : asideOf "f" seconds = asideOf "f" (replaced "f" "A" "B" (holding "f" "A")).clock
    · rw [hsame, replaced_aside] at haside
      exact absurd haside (by decide)
    · have hother : asideOf "f" seconds ≠ asideOf "f" (holding "f" "A").clock := hsame
      rw [replaced_other hsame, replaced_other hother, holding_aside] at haside
      cases haside

/-- A call that stops inside its write leaves a part of the text, which the next one takes for a token. -/
theorem token_partial : ∃ w t : World, Between "f" anyhow w ∧
    Exec (drifting "f" anyhow) (Request.run "f" .token).run w (some (.ok false)) t ∧ ¬ Whole "f" t := by
  have hstart : Fresh "f" ⟨fun _ => none, 0, [], false⟩ := ⟨rfl, rfl⟩
  have hcut : Exec (drifting "f" anyhow) (Request.run "f" (.write "B")).run ⟨fun _ => none, 0, [], false⟩ none
      ⟨Function.update (fun _ => none) "f" (some []), 0, [], true⟩ := by
    refine exec_request_bind (r := .error "NotFound") (Env.next_drifting ⟨rfl, fun _ h => nomatch h⟩) ?_
    refine exec_request_bind (r := .ok ()) (Env.next_drifting rfl) ?_
    exact exec_request_bind (r := .ok ()) (Env.next_drifting (Or.inr ⟨rfl, rfl⟩)) (Exec.stop _ _)
  refine ⟨_, _, .run (.write "B") (.start hstart) hcut rfl,
    exec_request_bind (r := true) (Env.next_drifting ⟨rfl, trivial, ?_⟩) (Exec.done _ _), ?_⟩
  · simp
  · rintro ⟨bytes, hmem, -⟩
    cases hmem

/-- The same world at a later second. -/
def later (clock : Nat) (w : World) : World := { w with clock := clock }

/-- Two replacements in different seconds, after which the path is taken for a token. -/
theorem files_kept_token :
    let t := replaced "f" "B" "C" (later 5 (replaced "f" "A" "B" (holding "f" "A")))
    t.written = [Text.utf8 "C", Text.utf8 "B", Text.utf8 "A"] ∧
      t.disk (asideOf "f" 0) = some (Text.utf8 "A") ∧
    NothingLost "f" t ∧
    (Request.token = .token → ∀ made, some (.ok false : Except Text Bool) = some (.ok made) →
      Whole "f" t) := by
  have hfirst : Between "f" (careful "f") (replaced "f" "A" "B" (holding "f" "A")) :=
    .run (.write "B") (.start (holding_fresh "f" "A"))
      (exec_replaced (Or.inl (holding_aside "f" "A" 0)) (holding_disk "f" "A") (by decide)) rfl
  have hfree : (replaced "f" "A" "B" (holding "f" "A")).disk (asideOf "f" 5) = none :=
    (replaced_other (by decide)).trans (holding_aside "f" "A" 5)
  have hold : (replaced "f" "A" "B" (holding "f" "A")).disk "f" = some (Text.utf8 "B") := replaced_path
  have haside : (replaced "f" "A" "B" (holding "f" "A")).disk (asideOf "f" 0) = some (Text.utf8 "A") :=
    @replaced_aside "f" "B" "A" (holding "f" "A")
  have hsecond : Between "f" (careful "f") (replaced "f" "B"
      "C" (later 5 (replaced "f" "A" "B" (holding "f" "A")))) :=
    .run (.write "C") (.idle hfirst (.tick 5 (Nat.zero_le _)))
      (exec_replaced (Or.inl hfree) hold (by decide)) rfl
  refine ⟨rfl, (replaced_other (by decide)).trans haside,
    files_kept hsecond (exec_request_bind (r := true) (Env.next_drifting ⟨rfl, rfl, fun _ => ?_⟩)
      (Exec.done _ _))⟩
  rw [replaced_path]
  rfl

end

end HomeStack.PrivateFile
