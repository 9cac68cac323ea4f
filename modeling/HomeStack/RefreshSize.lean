import HomeStack.Blocks
import HomeStack.Lib.Utf8
import HomeStack.Refresh

/-! How long the journals of one refresh are, and that none of them is refused for
its size when the description leaves room for the names still to come. -/

namespace HomeStack.Refresh

open Op
open Prog (Env Exec wp wp_done wp_stop wpe wpe_bind wpe_mono wpe_pure wpe_throw wpe_lift wpe_attempt)
open Relation (ReflTransGen)

/-! ## Sizes in JSON -/

/-- Bytes of a value as it is printed. -/
def jsonSize (v : Json) : Nat := v.render.utf8.length

/-- An entry of an object with its comma. -/
def entrySize (e : Text × Json) : Nat := jsonSize (.str e.1) + jsonSize e.2 + 2

theorem renderEntries_size (entries : List (Text × Json)) (h : entries ≠ []) :
    (Json.renderEntries entries).utf8.length + 1 = (entries.map entrySize).sum := by
  have hcolon : (Text.utf8 ":").length = 1 := by decide
  have hcomma : (Text.utf8 ",").length = 1 := by decide
  induction entries with
  | nil => exact absurd rfl h
  | cons e entries ih =>
    obtain ⟨k, v⟩ := e
    cases entries with
    | nil =>
      simp only [Json.renderEntries, Text.utf8_append, List.length_append, List.map_cons,
        List.map_nil, List.sum_cons,
        List.sum_nil, entrySize, jsonSize, Json.render]
      omega
    | cons f entries =>
      have hrest := ih (by simp)
      simp only [Json.renderEntries, Text.utf8_append, List.length_append, List.map_cons,
        List.sum_cons, entrySize, jsonSize,
        Json.render] at hrest ⊢
      omega

theorem jsonSize_obj (entries : List (Text × Json)) (h : entries ≠ []) :
    jsonSize (.obj entries) = (entries.map entrySize).sum + 1 := by
  have hopen : (Text.utf8 "\x7b").length = 1 := by decide
  have hclose : (Text.utf8 "\x7d").length = 1 := by decide
  have hentries := renderEntries_size entries h
  rw [jsonSize, Json.render, Text.utf8_append, Text.utf8_append, List.length_append,
    List.length_append, hopen, hclose]
  omega

/-- Bytes of a journal's JSON. -/
def size (j : Journal) : Nat := jsonSize j.toJson

/-- The fields that change during a transaction. -/
def updated (j : Journal) (phase : Phase) (new newKey oldKey : Text) (back : Bool) : Journal :=
  { j with phase, newRootVolume := new, newUnusedKey := newKey, oldUnusedKey := oldKey, rollingBack := back }

theorem size_updated (j : Journal) (phase : Phase) (new newKey oldKey : Text) (back : Bool) :
    size (updated j phase new newKey oldKey back) +
        (jsonSize (.str j.phase.asStr) + jsonSize (.str j.newRootVolume) + jsonSize (.str j.newUnusedKey) +
          jsonSize (.str j.oldUnusedKey) + jsonSize (.bool j.rollingBack)) =
      size j + (jsonSize (.str phase.asStr) + jsonSize (.str new) + jsonSize
        (.str newKey) + jsonSize (.str oldKey) +
        jsonSize (.bool back)) := by
  unfold size Journal.toJson
  rw [jsonSize_obj _ (by simp), jsonSize_obj _ (by simp)]
  simp only [List.map_cons, List.map_nil, List.sum_cons, List.sum_nil, entrySize, updated]
  omega

theorem encodeBytes_length (bytes : Bytes) :
    (Base64.encodeBytes bytes).length = 4 * ((bytes.length + 2) / 3) := by
  induction bytes using Base64.encodeBytes.induct with
  | case1 => rfl
  | case2 a => simp [Base64.encodeBytes]
  | case3 a b => simp [Base64.encodeBytes]
  | case4 a b c rest ih =>
    simp only [Base64.encodeBytes, List.length_cons, ih]
    omega

/-! ## The description with a journal -/

/-- The payload of a journal. -/
noncomputable def payload (j : Journal) : Text := Codec.encode .standard Journal.serde j

theorem payload_length (j : Journal) : (payload j).length = 4 * ((size j + 2) / 3) := encodeBytes_length _

section Block

open Description

variable {k : Markers} {before p after d : Text} {f : Found}

/-- A block is found where it stands after a text without its start marker. -/
theorem find_block (hbefore : Text.splitOnce k.start before = none) (hp : Clean p) :
    k.find (before ++ k.block p ++ after) = .ok (some ⟨before, p, after⟩) := by
  have hstart : Text.splitOnce k.start (before ++ k.block p ++ after) =
      some (before, p ++ ' ' :: ("-->" ++ after)) := by
    rw [k.start_cons, k.block_cons]
    rw [k.start_cons] at hbefore
    rw [show (before ++ '<' :: ("!-- homestack-" ++ k.tail ++ p ++ " -->") ++ after : Text)
      = before ++ '<' :: (("!-- homestack-" ++ k.tail) ++ (p ++ ' ' :: ("-->" ++ after))) by simp]
    exact Text.splitOnce_append k.start_once hbefore
  have hspace : ' ' ∉ p := fun h => by simpa [Text.isWhitespace] using (hp _ h).2
  have hstop : Text.splitOnce k.stop (p ++ ' ' :: ("-->" ++ after)) = some (p, after) := by
    rw [k.stop_eq]
    exact Text.splitOnce_append (show ' ' ∉ ("-->" : Text) by decide)
      (Text.splitOnce_none_of_not_mem ("-->" : Text) p hspace)
  have hmarker : Text.contains anyMarker p = false :=
    Text.contains_false_of_not_mem _ _ fun h => (hp _ h).1 rfl
  simp only [Markers.find, find, hstart, hstop, hmarker, Bool.false_eq_true, ↓reduceIte]

/-- No start marker stands before a block that is found. -/
theorem before_of_find (h : k.find d = .ok (some f)) : Text.splitOnce k.start f.before = none := by
  unfold Markers.find find at h
  split at h
  · cases h
  · next hstart =>
    split at h
    · cases h
    · split at h
      · cases h
      · cases h
        exact Text.splitOnce_before (by simp [k.start_cons]) hstart

/-- Another payload in place of the one that is found. -/
theorem find_replaced (h : k.find d = .ok (some f)) (hp : Clean p) :
    k.find (f.before ++ k.block p ++ f.after) = .ok (some ⟨f.before, p, f.after⟩) :=
  find_block (before_of_find h) hp

/-- Without a start marker there is no block. -/
theorem splitOnce_of_find (h : k.find d = .ok none) : Text.splitOnce k.start d = none := by
  unfold Markers.find find at h
  split at h
  · next hs => exact hs
  · split at h
    · cases h
    · split at h <;> cases h

/-- What stands before a block that was appended. -/
def beforeBlock (d : Text) : Text := if d = [] then [] else d ++ ['\n']

theorem addBlock_eq (d : Text) (k : Markers) (p : Text) : addBlock d (k, p) = beforeBlock d ++ k.block p := by
  unfold addBlock beforeBlock
  split <;> simp

/-- A block that was appended is the one that is found. -/
theorem find_addBlock (hd : k.find d = .ok none) (hp : Clean p) :
    k.find (addBlock d (k, p)) = .ok (some ⟨beforeBlock d, p, []⟩) := by
  have hnone := splitOnce_of_find hd
  have hbefore : Text.splitOnce k.start (beforeBlock d) = none := by
    unfold beforeBlock
    split
    · simp [Markers.start_cons, Text.splitOnce]
    · rw [Text.splitOnce_append_sep (by simp [Markers.start_cons]) hnone k.lf_not_mem_start]
      simp [Markers.start_cons, Text.splitOnce]
  rw [addBlock_eq, ← List.append_nil (beforeBlock d ++ k.block p)]
  exact find_block hbefore hp

/-- Cutting a block that was appended gives the text before. -/
theorem cutBlock_addBlock (d p : Text) : cutBlock ⟨beforeBlock d, p, []⟩ = d := by
  unfold cutBlock beforeBlock
  by_cases h : d = []
  · rw [if_pos h, h]
    rfl
  · simp [h]

theorem cutBlock_length (f : Found) : (cutBlock f).length ≤ f.before.length + f.after.length := by
  have hfirst : ∀ t : Text, (Text.stripFirstLf t).length ≤ t.length := fun t => by
    unfold Text.stripFirstLf
    split <;> simp
  have hlast : ∀ t : Text, (Text.stripLastLf t).length ≤ t.length := fun t => by
    unfold Text.stripLastLf
    split <;> simp
  have hafter := hfirst f.after
  have hbefore := hlast f.before
  unfold cutBlock
  split
  · rw [List.length_append]
    omega
  · split <;> rw [List.length_append]
    omega

end Block

/-- Characters of a description with a journal. -/
theorem block_length (before after : Text) (j : Journal) :
    (before ++ Kind.journalMarkers.block (payload j) ++ after).length =
      before.length + after.length + 28 + 4 * ((size j + 2) / 3) := by
  have hstart : Kind.journalMarkers.start.length = 24 := by decide
  have hstop : Kind.journalMarkers.stop.length = 4 := by decide
  simp only [Description.Markers.block, List.length_append, hstart, hstop, payload_length]
  omega

/-! ## One transaction -/

/-- The refusal of a journal for its size. -/
def doesNotFit (vmid : Nat) : CoreError :=
  .failed ("The refresh journal does not fit in the description of VM " ++ Text.ofNat vmid ++ " ("
    ++ Text.ofNat Journal.descriptionMax ++ " characters at most)")

/-- Volumes and unused keys with short names, as JSON without quotes. -/
structure Short (v u : Nat) (c : VmConfig) : Prop where
  volume : ∀ slot value, isScsiKey slot = true → (c)[slot]? = some value →
    jsonSize (.str (diskVolume value)) ≤ v + 2
  key : ∀ key, key ∈ c → isUnusedKey key = true → jsonSize (.str key) ≤ u + 2

/-- What a change of the configuration makes of the description. -/
def described (form : Form) (d : Text) : Text :=
  match form.find? fun f => f.1 = "description".toList with
  | some f => f.2
  | none => if form.any fun f => f.1 = "delete".toList ∧ f.2 = "description".toList then [] else d

/-- The description has the payload `p` in its only journal block, and at most
`n` characters around it. -/
def Around (n : Nat) (d p : Text) : Prop :=
  ∃ f, Kind.journalMarkers.find d = .ok (some f) ∧ f.payload = p ∧ f.before.length + f.after.length ≤ n ∧
    Kind.journalMarkers.find (Description.cutBlock f) = .ok none

/-- The description has no journal block, and leaves as much room for one. -/
def Without (n : Nat) (d : Text) : Prop := Kind.journalMarkers.find d = .ok none ∧ (beforeBlock d).length ≤ n

/-- Others may change the description around the journal. -/
def Others (n : Nat) (d d' : Text) : Prop :=
  d' = d ∨ (∃ p, Around n d p ∧ Around n d' p) ∨ (Kind.journalMarkers.find d = .ok none ∧ Without n d')

/-- Nobody else writes a journal or many more characters, and no name is too long.
Other answers are free; a change whose answer is lost may have been made. -/
def shared (vmid v u n : Nat) : Env Call Call.Answer Text where
  next d q r d' :=
    match q, r with
    | .get (.config _ _) _, .ok (.obj map) =>
      Others n d d' ∧ (parseConfig map).description = d ∧ Short v u (parseConfig map)
    -- descriptions are never left pending
    | .get (.pending _ _) _, .ok answer =>
      Others n d d' ∧ ∀ entry ∈ answer.asArray.getD [],
        (entry.get "key").bind Json.asStr ≠ some "description".toList
    | .put (.config _ _) form, .ok _ => Others n (described form d) d'
    | .put (.config _ _) form, .error _ => Others n d d' ∨ Others n (described form d) d'
    -- the checks of the storage and of the guest have their own messages
    | .probe _, .error e => Others n d d' ∧ e ≠ doesNotFit vmid
    | _, _ => Others n d d'

/-- A journal of the transaction: what it recorded since is short. -/
structure Later (v u : Nat) (j₀ j : Journal) : Prop where
  same : j = updated j₀ j.phase j.newRootVolume j.newUnusedKey j.oldUnusedKey j.rollingBack
  new : jsonSize (.str j.newRootVolume) ≤ v + 2
  newKey : jsonSize (.str j.newUnusedKey) ≤ u + 2
  oldKey : jsonSize (.str j.oldUnusedKey) ≤ u + 2

/-- The first journal of a transaction. -/
structure First (j₀ : Journal) : Prop where
  staging : isScsiKey j₀.stagingSlot = true
  prepared : j₀.phase = .prepared
  unnamed : j₀.newRootVolume = [] ∧ j₀.newUnusedKey = [] ∧ j₀.oldUnusedKey = []
  forward : j₀.rollingBack = false

/-- The description leaves room for the names still to come. -/
def Room (v u n : Nat) (j₀ : Journal) : Prop :=
  n + 28 + 4 * ((size j₀ + 1 + v + 2 * u + 2) / 3) ≤ Journal.descriptionMax

/-- The description has a journal of the transaction. -/
def Held (v u n : Nat) (j₀ : Journal) (d : Text) : Prop := ∃ j, Later v u j₀ j ∧ Around n d (payload j)

/-- The same, or the journal was removed. -/
def Ours (v u n : Nat) (j₀ : Journal) (d : Text) : Prop :=
  Held v u n j₀ d ∨ Kind.journalMarkers.find d = .ok none

section Transaction

variable {vmid v u n : Nat} {j₀ : Journal}

theorem phase_size (p : Phase) : jsonSize (.str p.asStr) ≤ jsonSize (.str Phase.prepared.asStr) + 1 := by
  cases p <;> decide

theorem bool_size (b : Bool) : jsonSize (.bool b) ≤ jsonSize (.bool false) := by
  cases b <;> decide

theorem empty_size : jsonSize (.str []) = 2 := by decide

theorem later_size (hfirst : First j₀) {j : Journal} (hj : Later v u j₀ j) :
    size j ≤ size j₀ + 1 + v + 2 * u := by
  have hsize := size_updated j₀ j.phase j.newRootVolume j.newUnusedKey j.oldUnusedKey j.rollingBack
  rw [← hj.same, hfirst.prepared, hfirst.unnamed.1, hfirst.unnamed.2.1, hfirst.unnamed.2.2,
    hfirst.forward, empty_size]
    at hsize
  have hphase := phase_size j.phase
  have hbool := bool_size j.rollingBack
  have hnew := hj.new
  have hnewKey := hj.newKey
  have holdKey := hj.oldKey
  omega

/-- Every journal of the transaction fits. -/
theorem later_fits (hfirst : First j₀) (hroom : Room v u n j₀) {j : Journal} (hj : Later v u j₀ j)
    {before after : Text} (hlength : before.length + after.length ≤ n) :
    (before ++ Kind.journalMarkers.block (payload j) ++ after).length ≤ Journal.descriptionMax := by
  have hsize := later_size hfirst hj
  have hblock := block_length before after j
  unfold Room at hroom
  omega

theorem later_first (hfirst : First j₀) : Later v u j₀ j₀ := by
  refine ⟨rfl, ?_, ?_, ?_⟩
  · rw [hfirst.unnamed.1, empty_size]
    omega
  · rw [hfirst.unnamed.2.1, empty_size]
    omega
  · rw [hfirst.unnamed.2.2, empty_size]
    omega

/-! ## What others leave alone -/

theorem around_payload {d p q : Text} (hp : Around n d p) (hq : Around n d q) : p = q := by
  obtain ⟨f, hf, rfl, -, -⟩ := hp
  obtain ⟨g, hg, rfl, -, -⟩ := hq
  rw [hf] at hg
  cases hg
  rfl

theorem held_others {d d' : Text} (hd : Held v u n j₀ d) (hn : Others n d d') : Held v u n j₀ d' := by
  obtain ⟨j, hj, hd⟩ := hd
  rcases hn with rfl | ⟨p, hp, hp'⟩ | ⟨hnone, -⟩
  · exact ⟨j, hj, hd⟩
  · rw [around_payload hp hd] at hp'
    exact ⟨j, hj, hp'⟩
  · obtain ⟨f, hf, -⟩ := hd
    rw [hnone] at hf
    cases hf

theorem ours_others {d d' : Text} (hd : Ours v u n j₀ d) (hn : Others n d d') : Ours v u n j₀ d' := by
  rcases hd with hd | hd
  · exact Or.inl (held_others hd hn)
  · rcases hn with rfl | ⟨p, ⟨f, hf, -⟩, -⟩ | ⟨-, hnone, -⟩
    · exact Or.inr hd
    · rw [hd] at hf
      cases hf
    · exact Or.inr hnone

/-- Neither of the two texts is a refusal. -/
theorem failed_ne_doesNotFit {m : Text} (h : m.head? ≠ some 'T') : CoreError.failed m ≠ doesNotFit vmid := by
  intro he
  injection he with he
  exact h (he ▸ rfl)

/-! ## Operations that leave the description alone -/

/-- Not a change of the configuration by `PUT`. -/
def Still : Call → Prop
  | .put (.config _ _) _ => False
  | _ => True

/-- All answers, with the messages of the checks. -/
def anyAnswer (vmid : Nat) : Env Call Call.Answer Unit where
  next _ q r _ :=
    match q, r with
    | .probe _, .error e => e ≠ doesNotFit vmid
    | _, _ => True

/-- The operation leaves the description alone and does not fail for its size. -/
def Calm {α : Type} (vmid : Nat) (p : Op α) : Prop :=
  wpe (anyAnswer vmid) (fun _ q => Still q) p () (fun _ _ => True) fun e _ => e ≠ doesNotFit vmid

namespace Calm

variable {α β : Type}

theorem pure (a : α) : Calm vmid (Pure.pure a : Op α) := trivial

theorem throw {e : CoreError} (he : e ≠ doesNotFit vmid) : Calm vmid (MonadExcept.throw e : Op α) := he

theorem bind {x : Op β} {f : β → Op α} (hx : Calm vmid x) (hf : ∀ b, Calm vmid (f b)) : Calm vmid (x >>= f) :=
  wpe_bind.mpr (wpe_mono hx (fun b _ _ => hf b) fun _ _ he => he)

theorem ite {c : Prop} [Decidable c] {p q : Op α} (hp : Calm vmid p) (hq : Calm vmid q) :
    Calm vmid (if c then p else q) := by
  split
  · exact hp
  · exact hq

theorem guard {c : Prop} [Decidable c] {e : CoreError} {f : PUnit → Op α} (he : e ≠ doesNotFit vmid)
    (hf : ∀ u, Calm vmid (f u)) : Calm vmid (if c then MonadExcept.throw e >>= f else f PUnit.unit) :=
  ite (bind (throw he) hf) (hf _)

theorem call {c : Call} (hc : Still c) : Calm vmid (Op.call c) := wpe_lift ⟨hc, fun _ _ _ => trivial⟩

theorem ofPve (r : Except PveError Json) : Calm vmid (Op.ofPve r) := by
  cases r with
  | ok v => exact pure v
  | error e => exact throw fun h => nomatch h

theorem get {path : Path} {query : Form} : Calm vmid (Op.get path query) := bind (call trivial) ofPve

theorem post {path : Path} {form : Form} : Calm vmid (Op.post path form) := bind (call trivial) ofPve

theorem attempt {p : Op α} (hp : Calm vmid p) : Calm vmid (Prog.attempt p) :=
  wpe_attempt (wpe_mono hp (fun _ _ _ => trivial) fun _ _ _ => trivial)

theorem ofExcept {x : Except CoreError α} (hx : ∀ e, x = .error e → e ≠ doesNotFit vmid) :
    Calm vmid (Op.ofExcept x) := by
  cases x with
  | ok a => exact pure a
  | error e => exact throw (hx e rfl)

/-- A check of the storage or of the guest. -/
theorem probe {what : Probe} {f : Option Text → Op α} (hf : ∀ b, Calm vmid (f b)) :
    Calm vmid (do f (← Op.ofExcept (← Op.call (.probe what)))) := by
  refine wpe_bind.mpr (wpe_lift ⟨trivial, fun r _ hr => ?_⟩)
  refine wpe_bind.mpr ?_
  cases r with
  | ok a => exact hf a
  | error e => exact hr

theorem retryWhileLocked {p : Op α} (hp : Calm vmid p) : Calm vmid (HomeStack.retryWhileLocked p) := by
  have hloop : ∀ n, Calm vmid (HomeStack.retryWhileLocked.go p n) := by
    intro n
    induction n with
    | zero => exact hp
    | succ n ih =>
      refine wpe_bind.mpr (wpe_attempt (wpe_mono hp (fun a _ _ => pure a) fun e _ he => ?_))
      dsimp only
      split
      · exact ih
      · exact throw he
  exact bind (call trivial) hloop

end Calm

theorem calm_clusterVmResources : Calm vmid clusterVmResources := by
  refine Calm.bind (Calm.bind Calm.get fun v => ?_) fun _ => Calm.pure _
  cases v with
  | arr items => exact Calm.pure _
  | _ => exact Calm.throw fun h => nomatch h

theorem calm_vmStatus (node : Text) (vm : Nat) : Calm vmid (vmStatus node vm) := by
  refine Calm.bind (Calm.call trivial) fun r => ?_
  cases r with
  | error e => exact Calm.pure _
  | ok v => cases v <;> exact Calm.pure _

theorem calm_readLog (node upid : Text) (n seen : Nat) : Calm vmid (readLog node upid n seen) := by
  induction n generalizing seen with
  | zero => exact Calm.pure _
  | succ n ih =>
    refine Calm.bind Calm.get fun log => ?_
    refine Calm.ite (Calm.pure _) ?_
    dsimp only
    exact Calm.ite (Calm.pure _) (Calm.ite (ih _) (Calm.pure _))

theorem calm_pollTask (node upid : Text) (seen : Nat) : Calm vmid (pollTask node upid seen) := by
  refine Calm.bind Calm.get fun status => Calm.bind (Calm.call trivial) fun k => ?_
  exact Calm.bind (calm_readLog node upid k seen) fun _ => Calm.ite (Calm.pure _) (Calm.pure _)

theorem calm_pollUntil (node upid : Text) (timeoutSecs n seen : Nat) :
    Calm vmid (pollUntil node upid timeoutSecs n seen) := by
  induction n generalizing seen with
  | zero =>
    unfold pollUntil
    refine Calm.bind (calm_pollTask node upid seen) fun r => ?_
    obtain ⟨result, seen⟩ := r
    cases result with
    | some result => exact Calm.pure _
    | none => exact Calm.throw (failed_ne_doesNotFit (by simp))
  | succ n ih =>
    unfold pollUntil
    refine Calm.bind (calm_pollTask node upid seen) fun r => ?_
    obtain ⟨result, seen⟩ := r
    cases result with
    | some result => exact Calm.pure _
    | none => exact ih seen

theorem calm_waitTask (upid : Text) (timeoutSecs : Nat) : Calm vmid (waitTask upid timeoutSecs) := by
  unfold waitTask
  split
  · exact Calm.throw fun h => nomatch h
  · exact Calm.bind (Calm.call trivial) fun n => calm_pollUntil _ _ _ n 0

theorem calm_upidOf (answer : Json) : Calm vmid (Op.ofExcept (upidOf answer)) := by
  refine Calm.ofExcept fun e he => ?_
  unfold upidOf at he
  split at he <;> cases he
  exact fun h => nomatch h

theorem calm_finishTask (answer : Json) {what : Text} (timeoutSecs : Nat)
    (hwhat : ∀ t : Text, (what ++ t).head? ≠ some 'T') : Calm vmid (finishTask answer what timeoutSecs) := by
  refine Calm.bind (calm_upidOf answer) fun upid =>
    Calm.bind (calm_waitTask upid timeoutSecs) fun result => ?_
  refine Calm.ite (Calm.throw (failed_ne_doesNotFit ?_)) (Calm.pure _)
  rw [List.append_assoc]
  exact hwhat _

theorem calm_postTask {path : Path} {form : Form} {what : Text} {timeoutSecs : Nat}
    (hwhat : ∀ t : Text, (what ++ t).head? ≠ some 'T') : Calm vmid (postTask path form what timeoutSecs) :=
  Calm.retryWhileLocked (Calm.bind Calm.post fun answer => calm_finishTask answer timeoutSecs hwhat)

theorem calm_startVm (node : Text) (vm : Nat) : Calm vmid (startVm node vm) := calm_postTask fun t => by simp

theorem calm_tryShutdown (node : Text) (vm timeoutSecs : Nat) :
    Calm vmid (tryShutdown node vm timeoutSecs) := by
  unfold tryShutdown
  refine Calm.bind Calm.post fun answer => Calm.bind (calm_upidOf answer) fun upid => ?_
  refine wpe_bind.mpr (wpe_attempt (wpe_mono (calm_waitTask upid (timeoutSecs + 30))
    (fun result _ _ => ?_) fun e _ he => ?_))
  · exact Calm.guard (failed_ne_doesNotFit (by simp)) fun _ => Calm.pure _
  · cases e with
    | failed m => exact Calm.pure _
    | _ => exact Calm.throw he

theorem calm_listedStopped (vm n : Nat) : Calm vmid (listedStopped vm n) := by
  have hlisted : Calm vmid (listedRunning vm) := Calm.bind calm_clusterVmResources fun _ => Calm.pure _
  induction n with
  | zero =>
    unfold listedStopped
    exact Calm.bind hlisted fun b => Calm.ite (Calm.throw (failed_ne_doesNotFit (by simp))) (Calm.pure _)
  | succ n ih =>
    unfold listedStopped
    exact Calm.bind hlisted fun b => Calm.ite ih (Calm.pure _)

theorem calm_shutdown (node : Text) (vm : Nat) : Calm vmid (shutdown node vm) := by
  unfold shutdown shutdownVm
  refine Calm.bind (calm_vmStatus node vm) fun status => Calm.ite (Calm.pure _) ?_
  refine Calm.guard (failed_ne_doesNotFit (by simp)) fun _ => ?_
  refine Calm.bind (Calm.retryWhileLocked (calm_tryShutdown node vm shutdownSecs)) fun ok => ?_
  refine Calm.bind (calm_vmStatus node vm) fun final => ?_
  refine Calm.guard (failed_ne_doesNotFit (by simp)) fun _ => ?_
  exact Calm.bind (Calm.call trivial) fun n => calm_listedStopped vm n

/-! ## The description over the runs -/

/-- In every run the description stays one of the transaction's, and no failure is
a refusal for size. -/
abbrev Fits {α : Type} (vmid v u n : Nat) (j₀ : Journal) (p : Op α) (d : Text) (K : α → Text → Prop) : Prop :=
  wpe (shared vmid v u n) (fun d _ => Ours v u n j₀ d) p d K fun e d' => Ours v u n j₀ d' ∧
    e ≠ doesNotFit vmid

/-- A configuration that was read with such a description. -/
structure Read (v u : Nat) (J : Text → Prop) (c : VmConfig) : Prop extends Short v u c where
  description : J c.description

theorem still_next {d d' : Text} {q : Call} {r : q.Answer} (hq : Still q)
    (hn : (shared vmid v u n).next d q r d') :
    Others n d d' ∧ (anyAnswer vmid).next () q r () := by
  cases q with
  | probe what =>
    cases r with
    | ok a => exact ⟨hn, trivial⟩
    | error e => exact hn
  | put path form =>
    cases path with
    | config node vm => exact hq.elim
    | _ => exact ⟨hn, trivial⟩
  | get path query =>
    cases path with
    | config node vm =>
      cases r with
      | error e => exact ⟨hn, trivial⟩
      | ok answer =>
        cases answer with
        | obj map => exact ⟨hn.1, trivial⟩
        | _ => exact ⟨hn, trivial⟩
    | pending node vm =>
      cases r with
      | error e => exact ⟨hn, trivial⟩
      | ok answer => exact ⟨hn.1, trivial⟩
    | _ => exact ⟨hn, trivial⟩
  | _ => exact ⟨hn, trivial⟩

/-- What the others keep, an operation keeps that leaves the description alone. -/
theorem wp_calm {α : Type} {J : Text → Prop} {I : Text → Call → Prop}
    (hJ : ∀ d d', J d → Others n d d' → J d') (hI : ∀ d q, J d → I d q)
    {p : Prog Call Call.Answer (Except CoreError α)} {d : Text} (hd : J d)
    (hp : wp (anyAnswer vmid) (fun _ q => Still q) p () fun r _ => ∀ e, r = .error e → e ≠ doesNotFit vmid) :
    wp (shared vmid v u n) I p d fun r d' => J d' ∧ ∀ e, r = .error e → e ≠ doesNotFit vmid := by
  induction p generalizing d with
  | pure r => exact ⟨hd, hp⟩
  | ask q k ih =>
    refine ⟨hI d q hd, fun r d' hn => ?_⟩
    obtain ⟨hothers, hany⟩ := still_next hp.1 hn
    exact ih r (hJ d d' hd hothers) (hp.2 r () hany)

theorem Calm.keeps {α : Type} {J : Text → Prop} {I : Text → Call → Prop}
    (hJ : ∀ d d', J d → Others n d d' → J d') (hI : ∀ d q, J d → I d q) {p : Op α} {d : Text}
    (hd : J d) (hp : Calm vmid p) :
    wpe (shared vmid v u n) I p d (fun _ d' => J d') fun e d' => J d' ∧ e ≠ doesNotFit vmid := by
  have hany : wp (anyAnswer vmid) (fun _ q => Still q) p.run () fun r _ => ∀ e, r = .error e →
      e ≠ doesNotFit vmid := by
    refine Prog.wp_mono hp fun r _ hr => ?_
    cases r with
    | ok a => exact fun e he => nomatch he
    | error e =>
      intro e' he
      cases he
      exact hr
  refine Prog.wp_mono (wp_calm hJ hI hd hany) fun r d' hr => ?_
  cases r with
  | ok a => exact hr.1
  | error e => exact ⟨hr.1, hr.2 e rfl⟩

/-- An operation that leaves the description alone. -/
theorem Calm.fits {α : Type} {p : Op α} {d : Text} (hp : Calm vmid p) (hd : Held v u n j₀ d) :
    Fits vmid v u n j₀ p d fun _ d' => Held v u n j₀ d' :=
  wpe_mono (Calm.keeps (fun _ _ => held_others) (fun _ _ => Or.inl) hd hp) (fun _ _ h => h) fun _ _ he =>
    ⟨Or.inl he.1, he.2⟩

/-- Before the rest of an operation. -/
theorem Calm.before {α β : Type} {x : Op β} {f : β → Op α} {d : Text} {K : α → Text → Prop} (hx : Calm vmid x)
    (hd : Held v u n j₀ d) (hf : ∀ b d, Held v u n j₀ d → Fits vmid v u n j₀ (f b) d K) :
    Fits vmid v u n j₀ (x >>= f) d K :=
  wpe_bind.mpr (wpe_mono (hx.fits hd) hf fun _ _ he => he)

section Reads

variable {J : Text → Prop} {I : Text → Call → Prop} (hJ : ∀ d d', J d → Others n d d' → J d')
  (hI : ∀ d q, J d → I d q)

include hJ hI in
theorem keeps_vmConfig {d : Text} (hd : J d) (node : Text) (vm : Nat) :
    wpe (shared vmid v u n) I (vmConfig node vm) d (fun c d' => J d' ∧ Read v u J c) fun e d' =>
      J d' ∧ e ≠ doesNotFit vmid := by
  refine wpe_bind.mpr (wpe_bind.mpr (wpe_lift ⟨hI d _ hd, fun r d' hn => ?_⟩))
  cases r with
  | error e => exact ⟨hJ d d' hd hn, fun h => nomatch h⟩
  | ok answer =>
    cases answer with
    | obj map =>
      obtain ⟨hothers, hdescription, hshort⟩ := hn
      exact ⟨hJ d d' hd hothers, hshort, hdescription ▸ hd⟩
    | _ => exact ⟨hJ d d' hd hn, fun h => nomatch h⟩

theorem pendingUnused_key (slot : Text) :
    isScsiKey (pendingUnused ++ slot) = false ∧ isUnusedKey (pendingUnused ++ slot) = false ∧
    pendingUnused ++ slot ≠ "description".toList := by
  refine ⟨rfl, rfl, ?_⟩
  intro h
  cases h

theorem read_erase {c : VmConfig} {key : Text} (hc : Read v u J c) (hkey : key ≠ "description".toList) :
    Read v u J (c.erase key) := by
  have hdescription : VmConfig.description (c.erase key) = c.description := by
    rw [VmConfig.description, VmConfig.description, Std.ExtTreeMap.getElem?_erase, if_neg]
    rw [Std.LawfulEqCmp.compare_eq_iff_eq]
    exact hkey
  refine ⟨⟨fun slot value hslot hvalue => ?_, fun k hk hunused => ?_⟩, hdescription ▸ hc.description⟩
  · rw [Std.ExtTreeMap.getElem?_erase] at hvalue
    split at hvalue
    · cases hvalue
    · exact hc.volume slot value hslot hvalue
  · exact hc.key k (Std.ExtTreeMap.mem_of_mem_erase hk) hunused

theorem read_insert {c : VmConfig} (hc : Read v u J c) (slot value : Text) :
    Read v u J (c.insert (pendingUnused ++ slot) value) := by
  obtain ⟨hscsi, hunused, hkey⟩ := pendingUnused_key slot
  have hdescription : VmConfig.description (c.insert (pendingUnused ++ slot) value) = c.description := by
    rw [VmConfig.description, VmConfig.description, Std.ExtTreeMap.getElem?_insert, if_neg]
    rw [Std.LawfulEqCmp.compare_eq_iff_eq]
    exact hkey
  refine ⟨⟨fun slot' value' hslot hvalue => ?_, fun k hk hk' => ?_⟩, hdescription ▸ hc.description⟩
  · rw [Std.ExtTreeMap.getElem?_insert] at hvalue
    split at hvalue
    · next heq =>
      rw [Std.LawfulEqCmp.compare_eq_iff_eq] at heq
      rw [← heq, hscsi] at hslot
      cases hslot
    · exact hc.volume slot' value' hslot hvalue
  · rcases Std.ExtTreeMap.mem_insert.mp hk with heq | hk
    · rw [Std.LawfulEqCmp.compare_eq_iff_eq] at heq
      rw [← heq, hunused] at hk'
      cases hk'
    · exact hc.key k hk hk'

/-- A pending change leaves the rest as it was read. -/
theorem read_applyPending {c : VmConfig} {entry : Json} (hc : Read v u J c)
    (hentry : (entry.get "key").bind Json.asStr ≠ some "description".toList) :
    Read v u J (applyPending c entry) := by
  unfold applyPending
  dsimp only
  split
  · exact hc
  · next key hkey =>
    rw [hkey] at hentry
    have herase := read_erase hc (fun h => hentry (h ▸ rfl) : key ≠ "description".toList)
    split
    · exact hc
    · split
      · exact read_insert herase key _
      · exact herase

theorem read_applyPendings {c : VmConfig} {entries : List Json} (hc : Read v u J c)
    (hentries : ∀ entry ∈ entries, (entry.get "key").bind Json.asStr ≠ some "description".toList) :
    Read v u J (entries.foldl applyPending c) := by
  induction entries generalizing c with
  | nil => exact hc
  | cons entry entries ih =>
    exact ih (read_applyPending hc (hentries entry (by simp))) fun e he =>
      hentries e (List.mem_cons_of_mem _ he)

include hJ hI in
theorem keeps_effectiveConfig {d : Text} (hd : J d) (node : Text) (vm : Nat) :
    wpe (shared vmid v u n) I (effectiveConfig node vm) d (fun c d' => J d' ∧ Read v u J c) fun e d' =>
      J d' ∧ e ≠ doesNotFit vmid := by
  refine wpe_bind.mpr (wpe_mono (keeps_vmConfig hJ hI hd node vm) ?_ fun _ _ he => he)
  rintro c d' ⟨hd', hc⟩
  refine wpe_bind.mpr (wpe_bind.mpr (wpe_lift ⟨hI d' _ hd', fun r d'' hn => ?_⟩))
  cases r with
  | error e => exact ⟨hJ d' d'' hd' hn, fun h => nomatch h⟩
  | ok answer => exact ⟨hJ d' d'' hd' hn.1, read_applyPendings hc hn.2⟩

end Reads

theorem fits_vmConfig {d : Text} (hd : Held v u n j₀ d) (node : Text) (vm : Nat) :
    Fits vmid v u n j₀ (vmConfig node vm) d fun c d' => Held v u n j₀ d' ∧ Read v u (Held v u n j₀) c :=
  wpe_mono (keeps_vmConfig (fun _ _ => held_others) (fun _ _ => Or.inl) hd node vm)
    (fun _ _ h => h) fun _ _ he =>
    ⟨Or.inl he.1, he.2⟩

theorem fits_effectiveConfig {d : Text} (hd : Held v u n j₀ d) (node : Text) (vm : Nat) :
    Fits vmid v u n j₀ (effectiveConfig node vm) d fun c d' => Held v u n j₀ d' ∧
      Read v u (Held v u n j₀) c :=
  wpe_mono (keeps_effectiveConfig (fun _ _ => held_others) (fun _ _ => Or.inl) hd node vm)
    (fun _ _ h => h) fun _ _ he =>
    ⟨Or.inl he.1, he.2⟩

/-- The configuration after a task. -/
theorem fits_set {d : Text} (hd : Held v u n j₀ d) {node : Text} {vm : Nat} {c : VmConfig} {values : Form}
    {what : Text} (hwhat : ∀ t : Text, (what ++ t).head? ≠ some 'T') :
    Fits vmid v u n j₀ (set node vm c values what) d fun c' d' => Held v u n j₀ d' ∧
      Read v u (Held v u n j₀) c' :=
  Calm.before (calm_postTask hwhat) hd fun _ _ hd => fits_effectiveConfig hd node vm

theorem fits_unlink {d : Text} (hd : Held v u n j₀ d) (node : Text) (vm : Nat)
    (slot volume : Text) (force : Bool) :
    Fits vmid v u n j₀ (unlink node vm slot volume force) d fun c d' => Held v u n j₀ d' ∧
      Read v u (Held v u n j₀) c := by
  refine wpe_bind.mpr (wpe_mono (fits_effectiveConfig hd node vm) ?_ fun _ _ he => he)
  rintro c d' ⟨hd', -⟩
  dsimp only
  split
  · exact ⟨Or.inl hd', failed_ne_doesNotFit (by simp)⟩
  · refine Calm.before (Calm.retryWhileLocked (Calm.bind (Calm.call trivial) Calm.ofPve)) hd' fun _ _ hd'' =>
    ?_
    exact fits_effectiveConfig hd'' node vm

/-! ## Writing a journal -/

/-- Another journal in the place of the one that was read. -/
theorem around_replaced {d p : Text} (hd : Around n d p) (j : Journal) :
    ∃ before after, Kind.journalMarkers.withBlock d (some (payload j)) =
        .ok (before ++ Kind.journalMarkers.block (payload j) ++ after) ∧ before.length + after.length ≤ n ∧
      Around n (before ++ Kind.journalMarkers.block (payload j) ++ after) (payload j) := by
  obtain ⟨f, hf, -, hlength, hcut⟩ := hd
  have hfound := find_replaced hf (Base64.standard.clean _ : Description.Clean (payload j))
  exact ⟨f.before, f.after, Description.Markers.withBlock_set_found hf _, hlength, _,
    hfound, rfl, hlength, hcut⟩

theorem describeForm_cons (c : Char) (x : Text) :
    describeForm (c :: x) = [(("description" : Text), c :: x)] := rfl

theorem described_description (x d : Text) (rest : Form) :
    described ((("description" : Text), x) :: rest) d = x := rfl

theorem described_delete (d digest : Text) :
    described [(("delete" : Text), ("description" : Text))] d = [] ∧
      described [(("delete" : Text), ("description" : Text)), ("digest", digest)] d = [] := ⟨rfl, rfl⟩

theorem described_form (x d : Text) (digest : Option Text) :
    described (configForm (describeForm x) digest) d = x := by
  cases x with
  | nil =>
    unfold configForm
    split
    · next d' _ => exact (described_delete d d').2
    · exact (described_delete d []).1
  | cons c x =>
    rw [describeForm_cons]
    unfold configForm
    split
    · exact described_description (c :: x) d _
    · exact described_description (c :: x) d _

/-- The write of a description: the one before stays, or the one that is written. -/
theorem keeps_describe {J K : Text → Prop} {I : Text → Call → Prop} {x : Text}
    (hK : ∀ d d', K d → Others n d d' → K d') (hI : ∀ d q, K d → I d q) (hx : ∀ d, Others n x d →
      J d) (hJ : ∀ d, J d → K d)
    {d : Text} (hd : K d) (node : Text) (vm : Nat) (digest : Option Text) :
    wpe (shared vmid v u n) I (setVmConfig node vm (describeForm x) digest) d (fun _ d' => J d') fun e d' =>
      K d' ∧ e ≠ doesNotFit vmid := by
  have hput : ∀ d, K d → wpe (shared vmid v u n) I
      (put (.config node vm) (configForm (describeForm x) digest)) d
      (fun _ d' => J d') fun e d' => K d' ∧ e ≠ doesNotFit vmid := by
    intro d hd
    refine wpe_bind.mpr (wpe_lift ⟨hI d _ hd, fun r d' hn => ?_⟩)
    cases r with
    | ok answer =>
      have hn : Others n (described (configForm (describeForm x) digest) d) d' := hn
      rw [described_form] at hn
      exact hx d' hn
    | error e =>
      have hn : Others n d d' ∨ Others n (described (configForm (describeForm x) digest) d) d' := hn
      rw [described_form] at hn
      rcases hn with hn | hn
      · exact ⟨hK d d' hd hn, fun h => nomatch h⟩
      · exact ⟨hJ d' (hx d' hn), fun h => nomatch h⟩
  have hloop : ∀ m d, K d → wpe (shared vmid v u n) I
      (HomeStack.retryWhileLocked.go (put (.config node vm) (configForm (describeForm x) digest)) m) d
      (fun _ d' => J d') fun e d' => K d' ∧ e ≠ doesNotFit vmid := by
    intro m
    induction m with
    | zero => exact hput
    | succ m ih =>
      intro d hd
      refine wpe_bind.mpr (wpe_attempt (wpe_mono (hput d hd) (fun a d' h => h) fun e d' he => ?_))
      dsimp only
      split
      · exact ih d' he.1
      · exact he
  refine wpe_bind.mpr (wpe_bind.mpr (wpe_lift ⟨hI d _ hd, fun m d' hn => ?_⟩))
  exact wpe_mono (hloop m d' (hK d d' hd hn)) (fun a d' h => h) fun _ _ he => he

theorem fits_describe {J : Text → Prop} {x : Text} (hx : ∀ d, Others n x d → J d)
    (hJ : ∀ d, J d → Ours v u n j₀ d) {d : Text} (hd : Held v u n j₀ d) (node : Text) (vm : Nat)
    (digest : Option Text) :
    Fits vmid v u n j₀ (setVmConfig node vm (describeForm x) digest) d fun _ d' => J d' :=
  keeps_describe (fun _ _ => ours_others) (fun _ _ h => h) hx hJ (Or.inl hd) node vm digest

/-- A journal of the transaction is written. -/
theorem fits_writeJournal (hfirst : First j₀) (hroom : Room v u n j₀) {j : Journal} (hj : Later v u j₀ j)
    {d : Text} (hd : Held v u n j₀ d) {c : VmConfig} (hc : Read v u (Held v u n j₀) c) (node : Text) :
    Fits vmid v u n j₀ (writeJournal .standard Journal.serde node vmid c (some j)) d fun c' d' =>
      Held v u n j₀ d' ∧ Read v u (Held v u n j₀) c' := by
  obtain ⟨j', -, haround⟩ := hc.description
  obtain ⟨before, after, hwith, hlength, hwritten⟩ := around_replaced haround j
  have hfits := later_fits hfirst hroom hj hlength
  unfold writeJournal
  rw [show Journal.descriptionWith .standard Journal.serde c.description (some j) = _ from hwith]
  refine wpe_bind.mpr ?_
  change wpe _ _ (ite _ _ _) d _ _
  rw [if_neg (by omega)]
  refine wpe_bind.mpr (wpe_mono (fits_describe (J := Held v u n j₀)
    (fun d' hn => held_others ⟨j, hj, hwritten⟩ hn)
    (fun _ => Or.inl) hd node vmid _) (fun _ d' hd' => ?_) fun _ _ he => he)
  exact fits_vmConfig hd' node vmid

/-- The journal is removed. -/
theorem fits_removal (hroom : Room v u n j₀) {d : Text} (hd : Held v u n j₀ d) {c : VmConfig}
    (hc : Read v u (Held v u n j₀) c) (node : Text) :
    Fits vmid v u n j₀ (writeJournal .standard Journal.serde node vmid c none) d fun _ d' =>
      Ours v u n j₀ d' := by
  obtain ⟨j', -, f, hf, -, hlength, hcut⟩ := hc.description
  have hfits : ¬(Description.cutBlock f).length > Journal.descriptionMax := by
    have hcutLength := cutBlock_length f
    unfold Room at hroom
    omega
  unfold writeJournal
  rw [show Journal.descriptionWith .standard Journal.serde c.description none = _ from
    Description.Markers.withBlock_unset_found hf]
  refine wpe_bind.mpr ?_
  change wpe _ _ (ite _ _ _) d _ _
  rw [if_neg hfits]
  refine wpe_bind.mpr (wpe_mono (fits_describe (J := Ours v u n j₀)
    (fun d' hn => ours_others (Or.inr hcut) hn)
    (fun _ h => h) hd node vmid _) (fun _ d' hd' => ?_) fun _ _ he => he)
  refine wpe_bind.mpr (wpe_mono (Calm.keeps (fun _ _ => ours_others) (fun _ _ h => h) hd' Calm.get)
    (fun v d'' hd'' => ?_)
    fun _ _ he => he)
  cases v with
  | obj map => exact hd''
  | _ => exact ⟨hd'', fun h => nomatch h⟩

end Transaction

end HomeStack.Refresh
