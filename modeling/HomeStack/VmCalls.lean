import HomeStack.Cluster
import HomeStack.Tasks

/-! Calls on one VM's configuration: `set_vm_config` of `inventory.rs`, and
reading the configuration with its pending changes and writing the journal,
of `refresh.rs`. -/

namespace HomeStack

open Op

/-- The form of a configuration change, with the digest it was checked
against. -/
def configForm (values : Form) (digest : Option Text) : Form :=
  match (digest.map Text.trim).filter fun d => !d.isEmpty with
  | some d => values ++ [(("digest" : Text), d)]
  | none => values

def setVmConfig (node : Text) (vmid : Nat) (values : Form) (digest : Option Text) : Op Unit := do
  let _ ← retryWhileLocked (put (.config node vmid) (configForm values digest))

/-- A disk whose unlink is pending appears under this name. -/
def pendingUnused : Text := "unused-pending-"

/-- One entry of the pending changes. -/
def applyPending (vmCfg : VmConfig) (entry : Json) : VmConfig :=
  let delete := ((entry.get "delete").bind Json.asU64).getD 0
  match (entry.get "key").bind Json.asStr with
  | none => vmCfg
  | some key =>
    if delete = 0 then vmCfg
    else
      let value := ((entry.get "value").bind Json.asStr).getD []
      let vmCfg := vmCfg.erase key
      if delete = 1 ∧ isDiskSlot key ∧ hasStorage (diskVolume value) then
        vmCfg.insert (pendingUnused ++ key) value
      else vmCfg

/-- `effective_config`: the configuration as it is once Proxmox applies its
pending changes. -/
def effectiveConfig (node : Text) (vmid : Nat) : Op VmConfig := do
  let vmCfg ← vmConfig node vmid
  let pending ← get (.pending node vmid) []
  return (pending.asArray.getD []).foldl applyPending vmCfg

def hasPending (vmCfg : VmConfig) : Bool := vmCfg.keys.any (Text.startsWith pendingUnused)

/-- The change that sets a description, or removes an empty one. -/
def describeForm (description : Text) : Form :=
  if description.isEmpty then [("delete", "description")] else [("description", description)]

/-- `write_journal`: write or remove the journal with the digest of the
configuration it was checked against. -/
def writeJournal (B : Base64) (S : Serde Journal) (node : Text) (vmid : Nat) (vmCfg : VmConfig)
    (journal : Option Journal) : Op VmConfig := do
  let description ← Op.ofExcept (Journal.descriptionWith B S vmCfg.description journal)
  if description.length > Journal.descriptionMax then
    throw (.failed ("The refresh journal does not fit in the description of VM " ++ Text.ofNat vmid ++ " ("
      ++ Text.ofNat Journal.descriptionMax ++ " characters at most)"))
  setVmConfig node vmid (describeForm description) vmCfg["digest".toList]?
  vmConfig node vmid

/-! ## What these calls ask -/

section Guards

open Prog

/-- The questions asked and the answers they got, newest first. -/
abbrev History := List (Event Call Call.Answer)

variable {I : History → Call → Prop} {h : History}

theorem wpe_call {α : Type} {c : Call} {k : c.Answer → Op α} {K : α → History → Prop}
    {X : CoreError → History → Prop} (hI : I h c) (hk : ∀ r, wpe anything I (k r) (⟨c, r⟩ :: h) K X) :
    wpe anything I (Op.call c >>= k) h K X := by
  refine wpe_bind.mpr (wpe_lift (wp_call hI ?_))
  rintro r _ rfl
  exact hk r

theorem wpe_ofExcept {α : Type} {x : Except CoreError α} {K : α → History → Prop}
    {X : CoreError → History → Prop} (hok : ∀ a, x = .ok a → K a h) (herr : ∀ e, x = .error e → X e h) :
    wpe anything I (Op.ofExcept x) h K X := by
  cases x with
  | ok a => exact hok a rfl
  | error e => exact herr e rfl

theorem wpe_get {path : Path} {query : Form} (hI : I h (.get path query)) :
    wpe anything I (get path query) h (fun v t => t = ⟨.get path query, .ok v⟩ :: h) fun _ t => ∃ new,
      t = new ++ h := by
  refine wpe_call hI fun r => ?_
  cases r with
  | ok v => exact wpe_pure rfl
  | error e => exact wpe_throw ⟨[_], rfl⟩

theorem wpe_put {path : Path} {form : Form} (hI : I h (.put path form)) :
    wpe anything I (put path form) h (fun v t => t = ⟨.put path form, .ok v⟩ :: h) fun _ t => ∃ new,
      t = new ++ h := by
  refine wpe_call hI fun r => ?_
  cases r with
  | ok v => exact wpe_pure rfl
  | error e => exact wpe_throw ⟨[_], rfl⟩

theorem wpe_vmConfig {node : Text} {vmid : Nat} (hI : I h (.get (.config node vmid) [])) :
    wpe anything I (vmConfig node vmid) h
      (fun vmCfg t => ∃ map, t = ⟨.get (.config node vmid) [], .ok (.obj map)⟩ :: h ∧ parseConfig map = vmCfg)
      fun _ t => ∃ new, t = new ++ h := by
  refine wpe_bind.mpr (wpe_mono (wpe_get hI) ?_ fun _ _ he => he)
  rintro v _ rfl
  cases v with
  | obj map => exact wpe_pure ⟨map, rfl, rfl⟩
  | _ => exact wpe_throw ⟨[_], rfl⟩

/-- A call tried again keeps what each try keeps. -/
theorem wpe_retryWhileLocked {α : Type} {p : Op α} {K : α → History → Prop} (hr : ∀ new, I (new ++ h) .rounds)
    (hp : ∀ new, wpe anything I p (new ++ h) (fun a t => (∃ more, t = more ++ h) ∧ K a t)
      fun _ t => ∃ more, t = more ++ h) :
    wpe anything I (retryWhileLocked p) h (fun a t => (∃ more, t = more ++ h) ∧ K a t)
      fun _ t => ∃ more, t = more ++ h := by
  have hloop : ∀ n new, wpe anything I (retryWhileLocked.go p n) (new ++ h)
      (fun a t => (∃ more, t = more ++ h) ∧ K a t) fun _ t => ∃ more, t = more ++ h := by
    intro n
    induction n with
    | zero => exact hp
    | succ n ih =>
      intro new
      refine wpe_bind.mpr (wpe_attempt (wpe_mono (hp new) (fun a t ha => wpe_pure ha) ?_))
      rintro e t ⟨more, rfl⟩
      dsimp only
      split
      · exact ih more
      · exact wpe_throw ⟨more, rfl⟩
  exact wpe_call (hr []) fun n => hloop n [_]

/-- `set_vm_config` asks its one change until it is taken. -/
theorem wpe_setVmConfig {node : Text} {vmid : Nat} {values : Form} {digest : Option Text}
    (hr : ∀ new, I (new ++ h) .rounds)
    (hI : ∀ new, I (new ++ h) (.put (.config node vmid) (configForm values digest))) :
    wpe anything I (setVmConfig node vmid values digest) h
      (fun _ t => (∃ new, t = new ++ h) ∧
        ∃ v, ⟨Call.put (.config node vmid) (configForm values digest), .ok v⟩ ∈ t)
      fun _ t => ∃ new, t = new ++ h := by
  refine wpe_bind.mpr (wpe_mono (wpe_retryWhileLocked (K := fun v t =>
    ⟨Call.put (.config node vmid) (configForm values digest), .ok v⟩ ∈ t) hr fun new =>
      ?_) ?_ fun _ _ he => he)
  · refine wpe_mono (wpe_put (hI new)) ?_ ?_
    · rintro v _ rfl
      exact ⟨⟨_ :: new, rfl⟩, List.mem_cons_self⟩
    · rintro e _ ⟨more, rfl⟩
      exact ⟨more ++ new, by rw [List.append_assoc]⟩
  · rintro v t ⟨hgrow, hmem⟩
    exact wpe_pure ⟨hgrow, v, hmem⟩

end Guards

/-! ## Successful calls -/

section Calls

open Prog

variable {h t : History}

theorem ran_call {c : Call} {r : c.Answer} (hr : Ran (Op.call c) h r t) : t = ⟨c, r⟩ :: h := by
  unfold Ran Op.call at hr
  rw [ExceptT.run_liftM, map_eq_pure_bind] at hr
  obtain ⟨a, s, h₁, h₂⟩ := Exec.bind hr
  cases h₂
  cases h₁ with
  | step hn hd =>
    cases hn
    cases hd
    rfl

theorem ran_get {path : Path} {query : Form} {v : Json} (hr : Ran (get path query) h v t) :
    t = ⟨.get path query, .ok v⟩ :: h := by
  obtain ⟨r, s, h₁, h₂⟩ := Ran.bind hr
  have hs := ran_call h₁
  cases r with
  | ok w =>
    obtain ⟨rfl, rfl⟩ := Ran.pure h₂
    exact hs
  | error e => exact (Ran.throw h₂).elim

theorem ran_delete {path : Path} {query : Form} {v : Json} (hr : Ran (delete path query) h v t) :
    t = ⟨.delete path query, .ok v⟩ :: h := by
  obtain ⟨r, s, h₁, h₂⟩ := Ran.bind hr
  have hs := ran_call h₁
  cases r with
  | ok w =>
    obtain ⟨rfl, rfl⟩ := Ran.pure h₂
    exact hs
  | error e => exact (Ran.throw h₂).elim

theorem ran_ofExcept {α : Type} {x : Except CoreError α} {a : α} (hr : Ran (Op.ofExcept x) h a t) :
    x = .ok a ∧ t = h := by
  cases x with
  | ok b =>
    obtain ⟨rfl, rfl⟩ := Ran.pure hr
    exact ⟨rfl, rfl⟩
  | error e => exact (Ran.throw hr).elim

end Calls

end HomeStack
