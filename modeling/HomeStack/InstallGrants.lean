import HomeStack.Capabilities
import HomeStack.InstallSteps

/-! An installed part grants what the server checks for: the roles and entries a
completed install leaves against the table of what each operation needs. -/

namespace HomeStack.Install

open Capabilities (Operation Privilege allStorages requirements evaluate)

/-! ## What a token may do -/

section Access

-- whether an entry counts below its path
variable (state : State) (propagates : Acl → Bool)

/-- The roles of a principal on a path: those of its entries there, or on the
nearest path above with an entry that propagates. -/
def resolve (who : Principal) (path : Text) : List Text :=
  nearest (state.acl.filter fun e => e.path = path || propagates e) who path

/-- On a guest the roles on its pool count too. -/
def rolesOn (who : Principal) (path : Text) : List Text :=
  resolve state propagates who path ++
    (state.vms.filter fun (vmid, vm) => path = "/vms/" ++ Text.ofNat vmid &&
      vm.pool ≠ []).flatMap fun (_, vm) =>
      resolve state propagates who ("/pool/" ++ vm.pool)

def holds (who : Principal) (path privilege : Text) : Bool :=
  (rolesOn state propagates who path).any fun role => (state.roles role).any fun privs => privilege ∈ privs

/-- A token with separated privileges has what it and its user both hold. -/
def granted (token path privilege : Text) : Bool :=
  holds state propagates (.token hsUser token) path privilege &&
    holds state propagates (.user hsUser) path privilege

end Access

variable {state : State} {propagates : Acl → Bool}

theorem mem_resolve {e : Acl} (h : e ∈ state.acl) : e.role ∈ resolve state propagates e.who e.path :=
  mem_nearest_of_mem (List.mem_filter.mpr ⟨h, by simp⟩)

theorem holds_of_mem {e : Acl} (h : e ∈ state.acl) {privs : List Text}
    (hrole : state.roles e.role = some privs) {privilege : Text} (hprivilege : privilege ∈ privs) :
    holds state propagates e.who e.path privilege = true := by
  refine List.any_eq_true.mpr ⟨e.role, List.mem_append_left _ (mem_resolve h), ?_⟩
  rw [hrole]
  exact decide_eq_true hprivilege

/-- An entry on the pool of a guest. -/
theorem holds_of_pool {e : Acl} (h : e ∈ state.acl) {vmid : Nat} {vm : Vm} (hvm : (vmid, vm) ∈ state.vms)
    (hpool : vm.pool ≠ []) (hpath : e.path = "/pool/" ++ vm.pool) {privs : List Text}
    (hrole : state.roles e.role = some privs) {privilege : Text} (hprivilege : privilege ∈ privs) :
    holds state propagates e.who ("/vms/" ++ Text.ofNat vmid) privilege = true := by
  refine List.any_eq_true.mpr ⟨e.role, List.mem_append_right _ ?_, ?_⟩
  · refine List.mem_flatMap.mpr ⟨(vmid, vm), List.mem_filter.mpr ⟨hvm, by simpa using hpool⟩, ?_⟩
    show e.role ∈ resolve state propagates e.who ("/pool/".toList ++ vm.pool)
    rw [← hpath]
    exact mem_resolve h
  · rw [hrole]
    exact decide_eq_true hprivilege

/-! ## What the plan leaves -/

/-- The step changes a guest. -/
def Action.changesVm : Action → Bool
  | .pveum (.poolPut _ _) => true
  | .pveum (.poolTake _ _) => true
  | .setTags _ _ _ => true
  | _ => false

theorem act_vms {s : State} {action : Action} (h : action.changesVm = false) :
    (s.act action).vms = s.vms := by
  cases action with
  | pveum command =>
    cases command with
    | poolPut pool vmid => cases h
    | poolTake pool vmid => cases h
    | _ => rfl
  | setTags node vmid tags => cases h
  | _ => rfl

theorem steps_vms {s : State} {steps : List Step} (h : ∀ step ∈ steps, step.action.changesVm = false) :
    (s.steps steps).vms = s.vms := by
  induction steps generalizing s with
  | nil => rfl
  | cons step steps ih =>
    have hrest := ih (s := s.act step.action) fun next hnext => h next (List.mem_cons_of_mem _ hnext)
    exact hrest.trans (act_vms (h step (by simp)))

/-- A step that changes neither roles nor entries. -/
def Action.quiet (action : Action) : Prop := action.role = none ∧ action.changesAcl = false

theorem quiet_user (ctx : Context) :
    ∀ step ∈ (if ctx.state.userExists then [] else [pveum ("create user " ++ hsUser) .userAdd]),
      step.action.quiet := by
  intro step h
  split at h
  · cases h
  · rw [List.mem_singleton.mp h]
    exact ⟨rfl, rfl⟩

theorem quiet_planPool (ctx : Context) (pool comment : Text) :
    ∀ step ∈ planPool ctx pool comment, step.action.quiet := by
  intro step h
  unfold planPool at h
  split at h
  · rw [List.mem_singleton.mp h]
    exact ⟨rfl, rfl⟩
  · cases h

theorem quiet_planPools (ctx : Context) : ∀ step ∈ planPools ctx, step.action.quiet := by
  intro step h
  unfold planPools at h
  rcases List.mem_append.mp h with h | h
  · rcases List.mem_append.mp h with h | h <;> exact quiet_planPool _ _ _ _ h
  · obtain ⟨pool, -, h⟩ := List.mem_flatMap.mp h
    exact quiet_planPool _ _ _ _ h

theorem quiet_planAdopt (ctx : Context) : ∀ step ∈ planAdopt ctx, step.action.quiet := by
  intro step h
  obtain ⟨vmid, -, h⟩ := List.mem_flatMap.mp h
  split at h
  · cases h
  · split at h
    · cases h
    · rw [List.mem_singleton.mp h]
      exact ⟨rfl, rfl⟩

theorem quiet_planGold (ctx : Context) : ∀ step ∈ planGold ctx, step.action.quiet := by
  intro step h
  unfold planGold at h
  split at h
  · cases h
  · rcases List.mem_append.mp h with h | h
    · split at h
      · cases h
      · rw [List.mem_singleton.mp h]
        exact ⟨rfl, rfl⟩
    · split at h
      · rw [List.mem_singleton.mp h]
        exact ⟨rfl, rfl⟩
      · cases h

theorem quiet_planToken (ctx : Context) (id comment : Text) :
    ∀ step ∈ planToken ctx id comment, step.action.quiet := by
  intro step h
  unfold planToken at h
  split at h
  · rw [List.mem_singleton.mp h]
    exact ⟨rfl, rfl⟩
  · rw [List.mem_singleton.mp h]
    exact ⟨rfl, rfl⟩
  · cases h

theorem quiet_planSnippets (sumOf : Text → Text) (ctx : Context) :
    ∀ step ∈ planSnippets sumOf ctx, step.action.quiet := by
  intro step h
  obtain ⟨node, -, h⟩ := List.mem_flatMap.mp h
  split at h
  · cases h
  · obtain ⟨name, -, h⟩ := List.mem_flatMap.mp h
    split at h
    · rw [List.mem_singleton.mp h]
      exact ⟨rfl, rfl⟩
    · cases h

theorem planLegacy_role {ctx : Context} {target : List Acl} {step : Step} (h : step ∈ planLegacy ctx target) :
    ∃ role ∈ legacyRoles, step.action = .pveum (.roleDelete role) := by
  obtain ⟨role, hrole, h⟩ := List.mem_flatMap.mp h
  split at h
  · exact ⟨role, hrole, by rw [List.mem_singleton.mp h]; rfl⟩
  · cases h

theorem planRole_role {ctx : Context} {role wanted : Text} {step : Step}
    (h : step ∈ planRole ctx role wanted) :
    step.action = .pveum (.roleAdd role wanted) ∨ step.action = .pveum (.roleModify role wanted) := by
  unfold planRole at h
  split at h
  · rw [List.mem_singleton.mp h]
    exact Or.inl rfl
  · split at h
    · rw [List.mem_singleton.mp h]
      exact Or.inr rfl
    · cases h

theorem aclSteps_role {add : Bool} {changes : List Acl} :
    ∀ step ∈ aclSteps add changes, step.action.role = none := by
  intro step h
  have hgives := aclSteps_gives step h
  cases haction : step.action with
  | pveum command =>
    rw [haction] at hgives
    cases command with
    | aclModify path who roles => rfl
    | aclDelete path who roles => rfl
    | _ => exact hgives.elim
  | _ =>
    rw [haction] at hgives
    exact hgives.elim

theorem planAcl_role {read : State} {target inherit : List Acl} :
    ∀ step ∈ planAcl read target inherit, step.action.role = none := by
  intro step h
  rcases List.mem_append.mp h with h | h <;> exact aclSteps_role step h

theorem planAcl_vms {read : State} {target inherit : List Acl} :
    ∀ step ∈ planAcl read target inherit, step.action.changesVm = false := by
  have hsteps : ∀ {add : Bool} {changes : List Acl}, ∀ step ∈ aclSteps add changes,
      step.action.changesVm = false := by
    intro add changes step h
    have hgives := aclSteps_gives step h
    cases haction : step.action with
    | pveum command =>
      rw [haction] at hgives
      cases command with
      | aclModify path who roles => rfl
      | aclDelete path who roles => rfl
      | _ => exact hgives.elim
    | _ =>
      rw [haction] at hgives
      exact hgives.elim
  intro step h
  rcases List.mem_append.mp h with h | h <;> exact hsteps step h

theorem planSnippets_vms (sumOf : Text → Text) (ctx : Context) :
    ∀ step ∈ planSnippets sumOf ctx, step.action.changesVm = false := by
  intro step h
  obtain ⟨node, -, h⟩ := List.mem_flatMap.mp h
  split at h
  · cases h
  · obtain ⟨name, -, h⟩ := List.mem_flatMap.mp h
    split at h
    · rw [List.mem_singleton.mp h]
      rfl
    · cases h

/-- After its step a role has the privileges it should have. -/
theorem planRole_sets (ctx : Context) (s : State) (role wanted : Text)
    (h : s.roles role = ctx.state.roles role) :
    (s.steps (planRole ctx role wanted)).roles role = some (privs wanted) := by
  unfold planRole
  split
  · exact Function.update_self _ _ _
  · next have_ hhave =>
    split
    · exact Function.update_self _ _ _
    · next heq =>
      show s.roles role = _
      rw [h, hhave, not_not.mp heq]

theorem planRoles_sets (ctx : Context) (owned : List (Text × Text)) (hnodup : (owned.map Prod.fst).Nodup)
    (s : State) (h : ∀ p ∈ owned, s.roles p.1 = ctx.state.roles p.1) :
    ∀ p ∈ owned, (s.steps (owned.flatMap fun (role, wanted) => planRole ctx role wanted)).roles p.1 =
      some (privs p.2) := by
  induction owned generalizing s with
  | nil =>
    intro p hp
    cases hp
  | cons first rest ih =>
    obtain ⟨role, wanted⟩ := first
    rw [List.map_cons, List.nodup_cons] at hnodup
    intro p hp
    rw [List.flatMap_cons, State.steps_append]
    -- the role's own step leaves the other roles alone
    have hother : ∀ q ∈ rest, (s.steps (planRole ctx role wanted)).roles q.1 = s.roles q.1 := by
      intro q hq
      apply steps_roles
      intro step hstep
      have hne : role ≠ q.1 := fun e => hnodup.1 (List.mem_map.mpr ⟨q, hq, e.symm⟩)
      rcases planRole_role hstep with haction | haction
      · rw [haction]
        exact fun e => hne (Option.some.inj e)
      · rw [haction]
        exact fun e => hne (Option.some.inj e)
    rcases List.mem_cons.mp hp with rfl | hp
    · have hrest : ∀ step ∈ rest.flatMap (fun (role, wanted) => planRole ctx role wanted),
          step.action.role ≠ some role := by
        intro step hstep
        obtain ⟨q, hq, hstep⟩ := List.mem_flatMap.mp hstep
        have hne : q.1 ≠ role := fun e => hnodup.1 (List.mem_map.mpr ⟨q, hq, e⟩)
        rcases planRole_role hstep with haction | haction
        · rw [haction]
          exact fun e => hne (Option.some.inj e)
        · rw [haction]
          exact fun e => hne (Option.some.inj e)
      rw [steps_roles hrest]
      exact planRole_sets ctx s role wanted (h (role, wanted) (by simp))
    · exact ih hnodup.2 _ (fun q hq => (hother q hq).trans (h q (List.mem_cons_of_mem _ hq))) p hp

/-- The owned roles have names of their own. -/
theorem ownedRoles_names : (ownedRoles.map Prod.fst).Nodup ∧ ∀ p ∈ ownedRoles, p.1 ∉ legacyRoles := by decide

section Install

variable (sumOf : Text → Text) (ctx : Context)

/-- What the completed plan leaves. -/
def installed : State := ctx.state.steps (planInstall sumOf ctx)

/-- The steps before the roles', and those after them. -/
theorem planInstall_eq :
    planInstall sumOf ctx =
      (if ctx.state.userExists then [] else [pveum ("create user " ++ hsUser) .userAdd]) ++
        (planRoles ctx ++ ((planPools ctx ++ planAdopt ctx ++ planGold ctx ++
          planToken ctx ctx.token ("HomeStack " ++ ctx.part) ++
            planToken ctx deployToken "HomeStack deploy") ++
          (planAcl ctx.state (installTarget ctx) (inheritAcl ctx) ++
            (planLegacy ctx (installTarget ctx) ++ planSnippets sumOf ctx)))) := by
  unfold planInstall
  simp only [List.append_assoc]

theorem quiet_between : ∀ step ∈ planPools ctx ++ planAdopt ctx ++ planGold ctx ++
    planToken ctx ctx.token ("HomeStack " ++ ctx.part) ++ planToken ctx deployToken "HomeStack deploy",
    step.action.quiet := by
  intro step h
  simp only [List.mem_append] at h
  rcases h with (((h | h) | h) | h) | h
  · exact quiet_planPools ctx step h
  · exact quiet_planAdopt ctx step h
  · exact quiet_planGold ctx step h
  · exact quiet_planToken ctx _ _ step h
  · exact quiet_planToken ctx _ _ step h

/-- The steps after the roles' leave a role alone that is not one made by hand. -/
theorem role_after {role : Text} (hlegacy : role ∉ legacyRoles) :
    ∀ step ∈ (planPools ctx ++ planAdopt ctx ++ planGold ctx ++
      planToken ctx ctx.token ("HomeStack " ++ ctx.part) ++ planToken ctx deployToken "HomeStack deploy") ++
      (planAcl ctx.state (installTarget ctx) (inheritAcl ctx) ++
        (planLegacy ctx (installTarget ctx) ++ planSnippets sumOf ctx)), step.action.role ≠ some role := by
  intro step h
  rcases List.mem_append.mp h with h | h
  · rw [(quiet_between ctx step h).1]
    exact nofun
  rcases List.mem_append.mp h with h | h
  · rw [planAcl_role step h]
    exact nofun
  rcases List.mem_append.mp h with h | h
  · obtain ⟨other, hother, haction⟩ := planLegacy_role h
    rw [haction]
    intro e
    exact hlegacy (Option.some.inj e ▸ hother)
  · rw [(quiet_planSnippets sumOf ctx step h).1]
    exact nofun

/-- Every role HomeStack owns has its privileges. -/
theorem installed_ownedRole {p : Text × Text} (h : p ∈ ownedRoles) :
    (installed sumOf ctx).roles p.1 = some (privs p.2) := by
  unfold installed
  rw [planInstall_eq, State.steps_append, State.steps_append,
    steps_roles (role_after sumOf ctx (ownedRoles_names.2 p h))]
  refine planRoles_sets ctx ownedRoles ownedRoles_names.1 _ (fun q _ => steps_roles ?_) p h
  intro step hstep
  rw [(quiet_user ctx step hstep).1]
  exact nofun

/-- A role that is neither owned nor made by hand stays as it is. -/
theorem installed_otherRole {role : Text} (howned : role ∉ ownedRoles.map Prod.fst)
    (hlegacy : role ∉ legacyRoles) :
    (installed sumOf ctx).roles role = ctx.state.roles role := by
  unfold installed
  rw [planInstall_eq, State.steps_append, State.steps_append, steps_roles (role_after sumOf ctx hlegacy)]
  have hroles : ∀ step ∈ planRoles ctx, step.action.role ≠ some role := by
    intro step hstep
    obtain ⟨q, hq, hstep⟩ := List.mem_flatMap.mp hstep
    have hne : q.1 ≠ role := fun e => howned (List.mem_map.mpr ⟨q, hq, e⟩)
    rcases planRole_role hstep with haction | haction
    · rw [haction]
      exact fun e => hne (Option.some.inj e)
    · rw [haction]
      exact fun e => hne (Option.some.inj e)
  rw [steps_roles hroles]
  apply steps_roles
  intro step hstep
  rw [(quiet_user ctx step hstep).1]
  exact nofun

/-- The steps on entries, on hand-made roles and on snippets leave the guests alone. -/
theorem installed_vms :
    (installed sumOf ctx).vms =
      (ctx.state.steps ((if ctx.state.userExists then [] else [pveum ("create user " ++ hsUser) .userAdd]) ++
        (planRoles ctx ++ (planPools ctx ++ planAdopt ctx ++ planGold ctx ++
          planToken ctx ctx.token ("HomeStack " ++ ctx.part) ++ planToken ctx deployToken
            "HomeStack deploy")))).vms := by
  unfold installed
  rw [planInstall_eq, ← List.append_assoc, ← List.append_assoc, State.steps_append, List.append_assoc]
  apply steps_vms
  intro step h
  rcases List.mem_append.mp h with h | h
  · exact planAcl_vms step h
  rcases List.mem_append.mp h with h | h
  · obtain ⟨role, -, haction⟩ := planLegacy_role h
    rw [haction]
    rfl
  · exact planSnippets_vms sumOf ctx step h

/-- The entries of the user and its tokens are the target. -/
theorem mem_installed_acl {e : Acl} (he : e.managed = true) :
    e ∈ (installed sumOf ctx).acl ↔ e ∈ installTarget ctx := by
  unfold installed
  rw [planInstall_eq, State.steps_append, State.steps_append, State.steps_append, State.steps_append]
  have hafter : ∀ step ∈ planLegacy ctx (installTarget ctx) ++ planSnippets sumOf ctx,
      step.action.changesAcl = false := by
    intro step h
    rcases List.mem_append.mp h with h | h
    · obtain ⟨role, -, haction⟩ := planLegacy_role h
      rw [haction]
      rfl
    · exact (quiet_planSnippets sumOf ctx step h).2
  have hroles : ∀ step ∈ planRoles ctx, step.action.changesAcl = false := by
    intro step h
    obtain ⟨q, -, h⟩ := List.mem_flatMap.mp h
    rcases planRole_role h with haction | haction
    · rw [haction]
      rfl
    · rw [haction]
      rfl
  rw [(steps_acl hafter).1]
  apply mem_acl_planAcl _ he
  rw [(steps_acl fun step h => (quiet_between ctx step h).2).1, (steps_acl hroles).1,
    (steps_acl fun step h => (quiet_user ctx step h).2).1]

/-- The user has what a token has on the token's own paths. -/
theorem user_of_token {tokens : List Acl} {e : Acl} (h : e ∈ tokens) :
    (⟨e.path, .user hsUser, e.role⟩ : Acl) ∈ userAcl tokens := by
  refine List.mem_flatMap.mpr ⟨e.path, List.mem_map_of_mem h, ?_⟩
  refine List.mem_flatMap.mpr ⟨e.who, List.mem_map_of_mem h, ?_⟩
  exact List.mem_map.mpr ⟨e.role, mem_nearest_of_mem h, rfl⟩

/-- An entry of the part's token, and the user's with the same role. -/
theorem installed_entries {path role : Text}
    (h : aclToken path ctx.token role ∈ tokenTargetAcl ctx.settings ctx.token ctx.sdnPath) :
    aclToken path ctx.token role ∈ (installed sumOf ctx).acl ∧
      (⟨path, .user hsUser, role⟩ : Acl) ∈ (installed sumOf ctx).acl := by
  have htokens : aclToken path ctx.token role ∈
      ctx.state.managedAcl.filter (otherToken [ctx.token, deployToken]) ++
        tokenTargetAcl ctx.settings ctx.token ctx.sdnPath ++ deployTargetAcl ctx.settings ctx.sdnPath :=
    List.mem_append_left _ (List.mem_append_right _ h)
  have htarget : installTarget ctx =
      (ctx.state.managedAcl.filter (otherToken [ctx.token, deployToken]) ++
        tokenTargetAcl ctx.settings ctx.token ctx.sdnPath ++ deployTargetAcl ctx.settings ctx.sdnPath) ++
      userAcl (ctx.state.managedAcl.filter (otherToken [ctx.token, deployToken]) ++
        tokenTargetAcl ctx.settings ctx.token ctx.sdnPath ++ deployTargetAcl ctx.settings ctx.sdnPath) := rfl
  constructor
  · rw [mem_installed_acl sumOf ctx (by simp [aclToken, Acl.managed, Principal.managed]), htarget]
    exact List.mem_append_left _ htokens
  · rw [mem_installed_acl sumOf ctx (by simp [Acl.managed, Principal.managed]), htarget]
    exact List.mem_append_right _ (user_of_token htokens)

variable {sumOf ctx}

/-- What a role of the token on a path gives there. -/
theorem granted_of_entry {path role : Text}
    (h : aclToken path ctx.token role ∈ tokenTargetAcl ctx.settings ctx.token ctx.sdnPath) {privs : List Text}
    (hrole : (installed sumOf ctx).roles role = some privs) {privilege : Text}
    (hprivilege : privilege ∈ privs) :
    granted (installed sumOf ctx) propagates ctx.token path privilege = true := by
  obtain ⟨htoken, huser⟩ := installed_entries sumOf ctx h
  unfold granted
  rw [Bool.and_eq_true]
  exact ⟨holds_of_mem htoken hrole hprivilege, holds_of_mem huser hrole hprivilege⟩

/-- What a role of the token on the pool of a guest gives on the guest. -/
theorem granted_of_pool {pool role : Text}
    (h : aclToken ("/pool/" ++ pool) ctx.token role ∈ tokenTargetAcl ctx.settings ctx.token ctx.sdnPath)
    {vmid : Nat} {vm : Vm} (hvm : (vmid, vm) ∈ (installed sumOf ctx).vms)
    (hpool : vm.pool = pool) (hne : pool ≠ [])
    {privs : List Text} (hrole : (installed sumOf ctx).roles role = some privs) {privilege : Text}
    (hprivilege : privilege ∈ privs) :
    granted (installed sumOf ctx) propagates ctx.token ("/vms/" ++ Text.ofNat vmid) privilege = true := by
  subst hpool
  obtain ⟨htoken, huser⟩ := installed_entries sumOf ctx h
  unfold granted
  rw [Bool.and_eq_true]
  exact ⟨holds_of_pool htoken hvm hne rfl hrole hprivilege, holds_of_pool huser hvm hne rfl hrole hprivilege⟩

end Install

/-! ## The two tables -/

theorem mem_privs {privilege text : Text} :
    privilege ∈ privs text ↔ privilege ∈ (text.splitOn ',').map Text.trim ∧ privilege ≠ [] := by
  unfold privs
  rw [List.mem_insertionSort, List.mem_dedup, List.mem_filter, decide_eq_true_eq]

/-- The privileges of a role by its words. -/
theorem mem_privs_of_words {text : Text} {words : List String}
    (hwords : (text.splitOn ',').map Text.trim = words.map String.toList) (hne : ∀ word ∈ words, word ≠ "")
    {privilege : String} (h : privilege ∈ words) : privilege.toList ∈ privs text := by
  refine mem_privs.2 ⟨?_, ?_⟩
  · rw [hwords]
    exact List.mem_map_of_mem h
  · intro hnil
    exact hne privilege h (String.toList_eq_nil_iff.mp hnil)

def workspaceWords : List String :=
  ["Pool.Audit", "VM.Allocate", "VM.Audit", "VM.Config.Cloudinit", "VM.Config.Disk", "VM.Config.Options",
    "VM.GuestAgent.Audit", "VM.GuestAgent.FileRead", "VM.GuestAgent.Unrestricted",
      "VM.Migrate", "VM.PowerMgmt"]

def goldWords : List String :=
  ["Pool.Audit", "VM.Audit", "VM.Clone", "VM.Config.Options", "VM.GuestAgent.Audit", "VM.GuestAgent.FileRead",
    "VM.GuestAgent.Unrestricted", "VM.PowerMgmt"]

set_option maxRecDepth 4000 in
theorem role_words :
    ((ownedRoles[0].2).splitOn ',').map Text.trim = workspaceWords.map String.toList ∧
      ((ownedRoles[1].2).splitOn ',').map Text.trim = goldWords.map String.toList := by
  simp only [ownedRoles, List.getElem_cons_zero, List.getElem_cons_succ]
  exact Text.of_literals
    (P := fun s t => (s.splitOn ',').map Text.trim = workspaceWords.map String.toList ∧
      (t.splitOn ',').map Text.trim = goldWords.map String.toList) (by decide)

theorem needs_pool {operation : Operation} {privilege : String}
    (h : privilege ∈ (Capabilities.needs operation).pool) :
    privilege.toList ∈ privs ownedRoles[0].2 := by
  have hwords : privilege ∈ workspaceWords := by
    have hsub : ∀ p ∈ (Capabilities.needs operation).pool, p ∈ workspaceWords := by cases operation <;> decide
    exact hsub privilege h
  exact mem_privs_of_words role_words.1 (by decide) hwords

theorem needs_gold {operation : Operation} {privilege : String}
    (h : privilege ∈ (Capabilities.needs operation).gold) :
    privilege.toList ∈ privs ownedRoles[1].2 := by
  have hwords : privilege ∈ goldWords := by
    have hsub : ∀ p ∈ (Capabilities.needs operation).gold, p ∈ goldWords := by cases operation <;> decide
    exact hsub privilege h
  exact mem_privs_of_words role_words.2 (by decide) hwords

theorem needs_storage : ("Datastore.AllocateSpace" : Text) ∈ privs ownedRoles[3].2 ∧
    ("Datastore.Audit" : Text) ∈ privs ownedRoles[3].2 :=
  Text.of_literals₃ (P := fun space audit t => space ∈ privs t ∧ audit ∈ privs t) (by decide +kernel)

/-- Every requirement is one of these. -/
theorem requirements_cases {operation : Operation} {config : Config} {pool : Text} {p : Privilege}
    (h : p ∈ requirements operation config pool) :
    p = ⟨"/nodes", "Sys.Audit"⟩ ∨
      (∃ privilege ∈ (Capabilities.needs operation).pool, p = ⟨"/pool/" ++ pool, privilege⟩) ∨
      (∃ vmid, config.goldVmid = some vmid ∧
        ∃ privilege ∈ (Capabilities.needs operation).gold, p = ⟨"/vms/" ++ Text.ofNat vmid, privilege⟩) ∨
      (∃ storage, (storage ∈ allStorages config ∨ storage = config.cloudInit.snippetStorage) ∧
        (p = ⟨"/storage/" ++ storage, "Datastore.Audit"⟩ ∨
          p = ⟨"/storage/" ++ storage, "Datastore.AllocateSpace"⟩)) := by
  unfold requirements at h
  rw [List.mem_insertionSort, List.mem_dedup] at h
  rcases List.mem_append.mp h with h | h
  · rcases List.mem_append.mp h with h | h
    · rcases List.mem_append.mp h with h | h
      · rcases List.mem_append.mp h with h | h
        · rcases List.mem_append.mp h with h | h
          · exact Or.inl (List.mem_singleton.mp h)
          · obtain ⟨privilege, hprivilege, rfl⟩ := List.mem_map.mp h
            exact Or.inr (Or.inl ⟨privilege, hprivilege, rfl⟩)
        · obtain ⟨vmid, hvmid, h⟩ := List.mem_flatMap.mp h
          obtain ⟨privilege, hprivilege, rfl⟩ := List.mem_map.mp h
          exact Or.inr (Or.inr (Or.inl ⟨vmid, Option.mem_toList.mp hvmid, privilege, hprivilege, rfl⟩))
      · split at h
        · obtain ⟨storage, hstorage, rfl⟩ := List.mem_map.mp h
          exact Or.inr (Or.inr (Or.inr ⟨storage, Or.inl hstorage, Or.inl rfl⟩))
        · cases h
    · obtain ⟨storage, hstorage, rfl⟩ := List.mem_map.mp h
      refine Or.inr (Or.inr (Or.inr ⟨storage, Or.inl ?_, Or.inr rfl⟩))
      exact Capabilities.allocated_sub hstorage
  · split at h
    · exact Or.inr (Or.inr (Or.inr ⟨_, Or.inr rfl, Or.inr (List.mem_singleton.mp h)⟩))
    · cases h

theorem aclToken_nodes (ctx : Context) :
    aclToken "/nodes" ctx.token "PVEAuditor" ∈ tokenTargetAcl ctx.settings ctx.token ctx.sdnPath := by
  unfold tokenTargetAcl
  simp only [List.mem_append]
  exact Or.inl (Or.inl (Or.inl (Or.inr List.mem_cons_self)))

theorem aclToken_pool (ctx : Context) :
    aclToken ("/pool/" ++ ctx.pool) ctx.token
      "HomeStack" ∈ tokenTargetAcl ctx.settings ctx.token ctx.sdnPath := by
  unfold tokenTargetAcl Context.pool
  cases ctx.settings.test <;> simp

theorem aclToken_gold (ctx : Context) :
    aclToken ("/pool/" ++ goldPool ctx.settings.test) ctx.token "HomeStackGold" ∈
      tokenTargetAcl ctx.settings ctx.token ctx.sdnPath := by
  unfold tokenTargetAcl goldPool
  cases ctx.settings.test <;> simp

theorem aclToken_storage {ctx : Context} {storage : Text}
    (h : storage ∈ ctx.settings.storages ∨ ctx.settings.snippetStorage = some storage) :
    aclToken ("/storage/" ++ storage) ctx.token "HomeStackStorage" ∈
      tokenTargetAcl ctx.settings ctx.token ctx.sdnPath := by
  have hmem : storage ∈ ctx.settings.storages ++ ctx.settings.snippetStorage.toList :=
    List.mem_append.mpr (h.imp id Option.mem_toList.mpr)
  unfold tokenTargetAcl
  simp only [List.mem_append]
  exact Or.inl (Or.inr (List.mem_map.mpr ⟨storage, hmem, rfl⟩))

theorem goldPool_ne (test : Bool) : goldPool test ≠ [] := by cases test <;> decide

/-- The server configuration is one of the installed part: its layouts list
storages of the settings, its snippet storage is theirs, its Gold is in the
part's Gold pool. -/
structure Serves (sumOf : Text → Text) (ctx : Context) (config : Config) : Prop where
  layouts : ∀ storage ∈ allStorages config, storage ∈ ctx.settings.storages
  snippet : ctx.settings.snippetStorage = some config.cloudInit.snippetStorage
  gold : ∀ vmid, config.goldVmid = some vmid →
    ∃ vm, (vmid, vm) ∈ (installed sumOf ctx).vms ∧ vm.pool = goldPool ctx.settings.test

/-- Each requirement of each operation is granted. -/
theorem requirement_granted {sumOf : Text → Text} {ctx : Context} {config : Config} {auditor : List Text}
    (hauditor : ctx.state.roles "PVEAuditor" = some auditor) (hsys : ("Sys.Audit" : Text) ∈ auditor)
    (hserves : Serves sumOf ctx config) {operation : Operation} {p : Privilege}
    (h : p ∈ requirements operation config ctx.pool) :
    granted (installed sumOf ctx) propagates ctx.token p.path p.privilege = true := by
  have hrole : ∀ i : Fin ownedRoles.length, (installed sumOf ctx).roles ownedRoles[i].1 =
      some (privs ownedRoles[i].2) :=
    fun i => installed_ownedRole sumOf ctx (List.getElem_mem i.isLt)
  rcases requirements_cases h with rfl | ⟨privilege, hp, rfl⟩ | ⟨vmid, hvmid, privilege, hp, rfl⟩ |
    ⟨storage, hstorage, hp⟩
  · have hauditor : (installed sumOf ctx).roles "PVEAuditor" = some auditor :=
      (installed_otherRole sumOf ctx (by decide) (by decide)).trans hauditor
    exact granted_of_entry (aclToken_nodes ctx) hauditor hsys
  · exact granted_of_entry (aclToken_pool ctx) (hrole ⟨0, by decide⟩) (needs_pool hp)
  · obtain ⟨vm, hvm, hpool⟩ := hserves.gold vmid hvmid
    exact granted_of_pool (aclToken_gold ctx) hvm hpool (goldPool_ne _) (hrole ⟨1, by decide⟩)
      (needs_gold hp)
  · have hin : storage ∈ ctx.settings.storages ∨ ctx.settings.snippetStorage = some storage := by
      rcases hstorage with hstorage | rfl
      · exact Or.inl (hserves.layouts storage hstorage)
      · exact Or.inr hserves.snippet
    have hentry := aclToken_storage hin
    rcases hp with rfl | rfl
    · exact granted_of_entry hentry (hrole ⟨3, by decide⟩) needs_storage.2
    · exact granted_of_entry hentry (hrole ⟨3, by decide⟩) needs_storage.1

/-- **An installed part grants what the server checks for.** Whatever the cluster
had before, in the roles and entries a completed install leaves, the part's token
has every privilege every operation needs, so nothing is reported as missing. -/
theorem install_grants (sumOf : Text → Text) (ctx : Context) (config : Config) (propagates : Acl → Bool)
    (hauditor : ∃ auditor, ctx.state.roles "PVEAuditor" = some auditor ∧ ("Sys.Audit" : Text) ∈ auditor ∧
      ("Datastore.Audit" : Text) ∈ auditor)
    (hserves : Serves sumOf ctx config) :
    (∀ operation, ∀ p ∈ requirements operation config ctx.pool,
      granted (installed sumOf ctx) propagates ctx.token p.path p.privilege = true) ∧
      ∀ capability ∈ evaluate config ctx.pool (granted (installed sumOf ctx) propagates ctx.token),
        capability.missing = [] := by
  obtain ⟨auditor, hauditor, hsys, -⟩ := hauditor
  have hall : ∀ operation, ∀ p ∈ requirements operation config ctx.pool,
      granted (installed sumOf ctx) propagates ctx.token p.path p.privilege = true :=
    fun operation p h => requirement_granted hauditor hsys hserves h
  refine ⟨hall, ?_⟩
  intro capability h
  obtain ⟨operation, -, rfl⟩ := List.mem_map.mp h
  refine List.filter_eq_nil_iff.mpr ?_
  intro p hp
  rw [hall operation p hp]
  exact nofun

/-- A cluster with a Gold in no pool yet, before the first install. -/
def freshContext : Context where
  state :=
    { vms := [(9000, ⟨"gold", "running", "pve1", .qemu, [goldTag], [], false⟩)]
      roles := setKey (fun _ => none) "PVEAuditor" (some ["Sys.Audit", "Datastore.Audit"])
      acl := []
      nonpropagating := []
      userExists := false
      tokens := fun _ => none
      pools := fun _ => none }
  settings := ⟨false, ["local"], some "local", [], some "local", none, some 9000, [],
    "/home/dev/.config/homestack"⟩
  sdnPath := "/sdn/zones/localnetwork/vmbr0"
  gold := some 9000
  paths := fun name => "/var/lib/vz/snippets/" ++ name
  sums := fun _ => some fun _ => none
  snippetNodes := ["pve1"]
  files := []
  seconds := 0
  cicustom := fun _ => some []

theorem install_grants_fresh :
    (∀ operation, ∀ p ∈ requirements operation sampleConfig "homestack",
      granted (installed (fun _ => []) freshContext) (fun _ => true) "server" p.path p.privilege = true) ∧
      ∀ capability ∈ evaluate sampleConfig "homestack"
        (granted (installed (fun _ => []) freshContext) (fun _ => true) "server"),
        capability.missing = [] := by
  have hserves : Serves (fun _ => []) freshContext sampleConfig :=
    { layouts := by decide
      snippet := rfl
      gold := by
        intro vmid hvmid
        cases hvmid
        refine ⟨⟨"gold", "running", "pve1", .qemu, [goldTag], poolGold, false⟩, ?_, rfl⟩
        rw [installed_vms]
        decide +kernel }
  exact install_grants (fun _ => []) freshContext sampleConfig (fun _ => true)
    ⟨["Sys.Audit", "Datastore.Audit"], by decide, by decide, by decide⟩ hserves

end HomeStack.Install
