import HomeStack.Install

/-! What the commands of a plan do to the cluster: the effect of each command on
what the installer reads, and of the ACL steps as a whole. -/

namespace HomeStack.Install

/-! ## Effects -/

/-- One key of a map. -/
def setKey {α : Type} (f : Text → Option α) (key : Text) (value : Option α) : Text → Option α :=
  Function.update f key value

/-- Change one guest. -/
def State.withVm (state : State) (vmid : Nat) (f : Vm → Vm) : State :=
  { state with vms := state.vms.map fun (id, vm) => if id = vmid then (id, f vm) else (id, vm) }

/-- The entries of one principal on one path. -/
def entriesOf (path : Text) (who : Principal) (roles : List Text) : List Acl :=
  roles.map fun role => ⟨path, who, role⟩

/-- A command that succeeds. A deleted user or token takes its ACL entries with
it. -/
def State.pveum (state : State) : Pveum → State
  | .userAdd => { state with userExists := true }
  | .userDelete =>
    { state with
      userExists := false
      tokens := fun _ => none
      acl := state.acl.filter fun e => !e.managed
      nonpropagating := state.nonpropagating.filter fun e => !e.managed }
  | .roleAdd role wanted => { state with roles := setKey state.roles role (some (privs wanted)) }
  | .roleModify role wanted => { state with roles := setKey state.roles role (some (privs wanted)) }
  | .roleDelete role => { state with roles := setKey state.roles role none }
  | .poolAdd pool _ => { state with pools := setKey state.pools pool (some []) }
  | .poolPut pool vmid =>
    { state.withVm vmid fun vm => { vm with pool } with
      pools := setKey state.pools pool ((state.pools pool).map fun members => members ++ [vmid]) }
  | .poolTake pool vmid =>
    { state.withVm vmid fun vm => { vm with pool := [] } with
      pools := setKey state.pools pool ((state.pools pool).map fun members => members.filter (· ≠ vmid)) }
  | .poolDelete pool => { state with pools := setKey state.pools pool none }
  | .tokenSeparate id => { state with tokens := setKey state.tokens id (some true) }
  | .tokenDelete id =>
    { state with
      tokens := setKey state.tokens id none
      acl := state.acl.filter fun e => e.who ≠ .token hsUser id
      nonpropagating := state.nonpropagating.filter fun e => e.who ≠ .token hsUser id }
  | .aclModify path who roles =>
    { state with
      acl := state.acl ++ (entriesOf path who roles).filter fun e => e ∉ state.acl
      nonpropagating := state.nonpropagating.filter fun e => e ∉ entriesOf path who roles }
  | .aclDelete path who roles =>
    { state with
      acl := state.acl.filter fun e => e ∉ entriesOf path who roles
      nonpropagating := state.nonpropagating.filter fun e => e ∉ entriesOf path who roles }

/-- The effect of a step on what the installer reads of Proxmox. -/
def State.act (state : State) : Action → State
  | .pveum command => state.pveum command
  | .setTags _ vmid tags => state.withVm vmid fun vm => { vm with tags }
  | .createToken token _ _ _ => { state with tokens := setKey state.tokens token (some true) }
  | .writeSnippet _ _ _ => state
  | .removeSnippet _ _ _ => state

/-- All steps, one after the other. -/
def State.steps (state : State) (steps : List Step) : State :=
  steps.foldl (fun s step => s.act step.action) state

theorem State.steps_append (state : State) (l₁ l₂ : List Step) :
    state.steps (l₁ ++ l₂) = (state.steps l₁).steps l₂ := List.foldl_append

/-! ## Steps that leave roles or entries alone -/

/-- The roles a step changes. -/
def Action.role : Action → Option Text
  | .pveum (.roleAdd role _) => some role
  | .pveum (.roleModify role _) => some role
  | .pveum (.roleDelete role) => some role
  | _ => none

/-- The step changes ACL entries. -/
def Action.changesAcl : Action → Bool
  | .pveum .userDelete => true
  | .pveum (.tokenDelete _) => true
  | .pveum (.aclModify _ _ _) => true
  | .pveum (.aclDelete _ _ _) => true
  | _ => false

theorem act_roles {state : State} {action : Action} {role : Text} (h : action.role ≠ some role) :
    (state.act action).roles role = state.roles role := by
  have hne : ∀ other value, some other ≠ some role →
      setKey state.roles other value role = state.roles role := by
    intro other value hne
    exact Function.update_of_ne (fun e => hne (by rw [e])) _ _
  cases action with
  | pveum command =>
    cases command with
    | roleAdd other wanted => exact hne other _ h
    | roleModify other wanted => exact hne other _ h
    | roleDelete other => exact hne other _ h
    | _ => rfl
  | _ => rfl

theorem act_acl {s : State} {action : Action} (h : action.changesAcl = false) :
    (s.act action).acl = s.acl ∧ (s.act action).nonpropagating = s.nonpropagating := by
  cases action with
  | pveum command =>
    cases command with
    | userDelete => cases h
    | tokenDelete id => cases h
    | aclModify path who roles => cases h
    | aclDelete path who roles => cases h
    | _ => exact ⟨rfl, rfl⟩
  | _ => exact ⟨rfl, rfl⟩

theorem steps_roles {s : State} {steps : List Step} {role : Text}
    (h : ∀ step ∈ steps, step.action.role ≠ some role) : (s.steps steps).roles role = s.roles role := by
  induction steps generalizing s with
  | nil => rfl
  | cons step steps ih =>
    have hrest := ih (s := s.act step.action) fun next hnext => h next (List.mem_cons_of_mem _ hnext)
    exact hrest.trans (act_roles (h step (by simp)))

theorem steps_acl {s : State} {steps : List Step} (h : ∀ step ∈ steps, step.action.changesAcl = false) :
    (s.steps steps).acl = s.acl ∧ (s.steps steps).nonpropagating = s.nonpropagating := by
  induction steps generalizing s with
  | nil => exact ⟨rfl, rfl⟩
  | cons step steps ih =>
    have hrest := ih (s := s.act step.action) fun next hnext => h next (List.mem_cons_of_mem _ hnext)
    have hone := act_acl (s := s) (h step (by simp))
    exact ⟨hrest.1.trans hone.1, hrest.2.trans hone.2⟩

/-! ## The ACL steps -/

theorem mem_sortedSet {e : Acl} {l : List Acl} : e ∈ sortedSet l ↔ e ∈ l := by
  unfold sortedSet
  rw [List.mem_insertionSort, List.mem_dedup]

/-- The changes of one kind in the order of their steps. -/
def orderedChanges (add : Bool) (changes : List Acl) : List Acl :=
  let later (entry : Acl) : Bool := entry.who.isUser != add
  ((sortedSet changes).filter fun entry => !later entry) ++ (sortedSet changes).filter later

theorem mem_orderedChanges {add : Bool} {changes : List Acl} {e : Acl} :
    e ∈ orderedChanges add changes ↔ e ∈ changes := by
  unfold orderedChanges
  simp only [List.mem_append, List.mem_filter, mem_sortedSet]
  constructor
  · rintro (⟨h, -⟩ | ⟨h, -⟩) <;> exact h
  · intro h
    cases hlater : (e.who.isUser != add) with
    | false => exact Or.inl ⟨h, rfl⟩
    | true => exact Or.inr ⟨h, rfl⟩

/-- The entries a step is about. -/
def Action.entries : Action → List Acl
  | .pveum (.aclModify path who roles) => entriesOf path who roles
  | .pveum (.aclDelete path who roles) => entriesOf path who roles
  | _ => []

/-- The step gives or takes entries. -/
def Action.gives (add : Bool) : Action → Prop
  | .pveum (.aclModify _ _ _) => add = true
  | .pveum (.aclDelete _ _ _) => add = false
  | _ => False

theorem aclSteps_gives {add : Bool} {changes : List Acl} :
    ∀ step ∈ aclSteps add changes, step.action.gives add := by
  intro step h
  unfold aclSteps at h
  obtain ⟨⟨⟨path, who⟩, es⟩, -, rfl⟩ := List.mem_map.mp h
  cases add <;> rfl

/-- The steps are about exactly the changes. -/
theorem aclSteps_entries {add : Bool} {changes : List Acl} {e : Acl} :
    (∃ step ∈ aclSteps add changes, e ∈ step.action.entries) ↔ e ∈ changes := by
  have hgroup : (∃ u ∈ Grouping.units (fun entry : Acl => (entry.path, entry.who))
      (orderedChanges add changes),
      e ∈ u.2) ↔ e ∈ changes := by
    have hmem : e ∈ Grouping.regroup (fun entry : Acl => (entry.path, entry.who))
        (orderedChanges add changes) ↔
        e ∈ changes := by
      rw [Grouping.mem_regroup, mem_orderedChanges]
    rw [← hmem]
    exact List.mem_flatMap.symm
  rw [← hgroup]
  -- a group's entries have its path and principal
  have hentries : ∀ u ∈ Grouping.units (fun entry : Acl => (entry.path, entry.who))
      (orderedChanges add changes),
      entriesOf u.1.1 u.1.2 (u.2.map Acl.role) = u.2 := by
    intro u hu
    unfold entriesOf
    rw [List.map_map]
    have hid : u.2.map ((fun role => (⟨u.1.1, u.1.2, role⟩ : Acl)) ∘ Acl.role) = u.2.map id := by
      apply List.map_congr_left
      intro f hf
      have hkey := Grouping.key_of_mem_units _ hu hf
      show (⟨u.1.1, u.1.2, f.role⟩ : Acl) = f
      rw [← hkey]
    rw [hid, List.map_id]
  unfold aclSteps
  constructor
  · rintro ⟨step, hstep, he⟩
    obtain ⟨u, hu, rfl⟩ := List.mem_map.mp hstep
    refine ⟨u, hu, ?_⟩
    rw [← hentries u hu]
    cases add <;> exact he
  · rintro ⟨u, hu, he⟩
    refine ⟨_, List.mem_map.mpr ⟨u, hu, rfl⟩, ?_⟩
    rw [← hentries u hu] at he
    cases add <;> exact he

/-- Giving entries adds them, and they propagate. -/
theorem mem_acl_give {s : State} {steps : List Step} (h : ∀ step ∈ steps, step.action.gives true) (e : Acl) :
    (e ∈ (s.steps steps).acl ↔ e ∈ s.acl ∨ ∃ step ∈ steps, e ∈ step.action.entries) ∧
      (e ∈ (s.steps steps).nonpropagating ↔
        e ∈ s.nonpropagating ∧ ¬∃ step ∈ steps, e ∈ step.action.entries) := by
  induction steps generalizing s with
  | nil => exact ⟨by simp [State.steps], by simp [State.steps]⟩
  | cons step steps ih =>
    have hstep : (e ∈ (s.act step.action).acl ↔ e ∈ s.acl ∨ e ∈ step.action.entries) ∧
        (e ∈ (s.act step.action).nonpropagating ↔ e ∈ s.nonpropagating ∧ e ∉ step.action.entries) := by
      have hgive := h step (by simp)
      cases hact : step.action with
      | pveum command =>
        rw [hact] at hgive
        cases command with
        | aclModify path who roles =>
          simp only [State.act, State.pveum, Action.entries, List.mem_append,
            List.mem_filter, decide_eq_true_eq]
          by_cases hin : e ∈ s.acl <;> simp [hin]
        | aclDelete path who roles => cases hgive
        | _ => exact hgive.elim
      | _ =>
        rw [hact] at hgive
        exact hgive.elim
    obtain ⟨hacl, hnon⟩ := ih (s := s.act step.action) fun next hnext => h next (List.mem_cons_of_mem _ hnext)
    constructor
    · rw [show s.steps (step :: steps) = (s.act step.action).steps steps from rfl, hacl, hstep.1]
      simp only [List.mem_cons, exists_eq_or_imp]
      rw [or_assoc]
    · rw [show s.steps (step :: steps) = (s.act step.action).steps steps from rfl, hnon, hstep.2]
      simp only [List.mem_cons, exists_eq_or_imp]
      rw [not_or, and_assoc]

/-- Taking entries removes them. -/
theorem mem_acl_take {s : State} {steps : List Step} (h : ∀ step ∈ steps, step.action.gives false) (e : Acl) :
    (e ∈ (s.steps steps).acl ↔ e ∈ s.acl ∧ ¬∃ step ∈ steps, e ∈ step.action.entries) ∧
      (e ∈ (s.steps steps).nonpropagating ↔
        e ∈ s.nonpropagating ∧ ¬∃ step ∈ steps, e ∈ step.action.entries) := by
  induction steps generalizing s with
  | nil => exact ⟨by simp [State.steps], by simp [State.steps]⟩
  | cons step steps ih =>
    have hstep : (e ∈ (s.act step.action).acl ↔ e ∈ s.acl ∧ e ∉ step.action.entries) ∧
        (e ∈ (s.act step.action).nonpropagating ↔ e ∈ s.nonpropagating ∧ e ∉ step.action.entries) := by
      have htake := h step (by simp)
      cases hact : step.action with
      | pveum command =>
        rw [hact] at htake
        cases command with
        | aclDelete path who roles =>
          simp only [State.act, State.pveum, Action.entries, List.mem_filter, decide_eq_true_eq, and_self]
        | aclModify path who roles => cases htake
        | _ => exact htake.elim
      | _ =>
        rw [hact] at htake
        exact htake.elim
    obtain ⟨hacl, hnon⟩ := ih (s := s.act step.action) fun next hnext => h next (List.mem_cons_of_mem _ hnext)
    constructor
    · rw [show s.steps (step :: steps) = (s.act step.action).steps steps from rfl, hacl, hstep.1]
      simp only [List.mem_cons, exists_eq_or_imp]
      rw [not_or, and_assoc]
    · rw [show s.steps (step :: steps) = (s.act step.action).steps steps from rfl, hnon, hstep.2]
      simp only [List.mem_cons, exists_eq_or_imp]
      rw [not_or, and_assoc]

theorem mem_managedAcl {state : State} {e : Acl} :
    e ∈ state.managedAcl ↔ e ∈ state.acl ∧ e.managed = true := by
  unfold State.managedAcl
  rw [List.mem_filter]

/-- **The ACL steps.** From a state with the plan's entries, the steps leave
exactly the target among the managed entries. -/
theorem mem_acl_planAcl {read state : State} {target inherit : List Acl} (hacl : state.acl = read.acl)
    {e : Acl} (he : e.managed = true) : e ∈ (state.steps (planAcl read target inherit)).acl ↔ e ∈ target := by
  unfold planAcl
  rw [State.steps_append, (mem_acl_take aclSteps_gives e).1, (mem_acl_give aclSteps_gives e).1,
    aclSteps_entries, aclSteps_entries, List.mem_filter, List.mem_filter]
  simp only [decide_eq_true_eq, mem_managedAcl, hacl, he, and_true]
  by_cases htarget : e ∈ target
  · by_cases hread : e ∈ read.acl <;> simp [htarget, hread]
  · by_cases hread : e ∈ read.acl <;> simp [htarget, hread]

end HomeStack.Install
