import HomeStack.InstallSteps

/-! The ACL of one run: what its steps leave of the managed entries, and that the
user's entries take nothing away from a token and give nothing besides. -/

namespace HomeStack.Install

/-! ## Resolving upwards -/

/-- A path's ancestry goes on with the ancestry of each path on it. -/
theorem ancestry_of_append {path up : Text} {before after : List Text}
    (h : ancestry path = before ++ up :: after) :
    ancestry up = up :: after := by
  induction before generalizing path with
  | nil =>
    obtain ⟨rest, hrest⟩ := ancestry_cons path
    rw [hrest, List.nil_append, List.cons.injEq] at h
    rw [← h.1, hrest, h.2]
  | cons first before ih =>
    by_cases hroot : path = ("/" : Text)
    · rw [hroot] at h
      have hlength := congrArg List.length h
      simp [ancestry] at hlength
    · rw [ancestry_parent hroot, List.cons_append, List.cons.injEq] at h
      exact ih h.2

/-- The nearest path upwards that has an entry of anyone. -/
def listed (entries : List Acl) (path : Text) : Option Text :=
  (ancestry path).find? fun up => entries.any fun e => e.path = up

section Nearest

variable {entries : List Acl} {who : Principal} {path up : Text}

theorem nearest_eq_nil (h : listed entries path = none) : nearest entries who path = [] := by
  have hnone : ((ancestry path).find? fun up => entries.any fun e => e.who = who && e.path = up) = none := by
    rw [List.find?_eq_none]
    intro up hup hany
    have hup := List.find?_eq_none.mp h up hup
    obtain ⟨e, he, hsame⟩ := List.any_eq_true.mp hany
    simp only [Bool.and_eq_true, decide_eq_true_eq] at hsame
    exact hup (List.any_eq_true.mpr ⟨e, he, by simpa using hsame.2⟩)
  unfold nearest
  rw [hnone]

/-- Below the nearest listed path nothing changes for anyone. -/
theorem nearest_eq (h : listed entries path = some up) :
    nearest entries who path = nearest entries who up := by
  obtain ⟨-, before, after, hpath, hbefore⟩ := List.find?_eq_some_iff_append.mp h
  have hskip : (before.find? fun up => entries.any fun e => e.who = who && e.path = up) = none := by
    rw [List.find?_eq_none]
    intro skipped hskipped hany
    have hnot := hbefore skipped hskipped
    obtain ⟨e, he, hsame⟩ := List.any_eq_true.mp hany
    simp only [Bool.and_eq_true, decide_eq_true_eq] at hsame
    rw [Bool.not_eq_true', List.any_eq_false] at hnot
    exact hnot e he (by simpa using hsame.2)
  unfold nearest
  rw [ancestry_of_append hpath, hpath, List.find?_append, hskip, Option.none_or]

/-- What is given on a path is what its entries say. -/
theorem mem_nearest_self (hany : ∃ e ∈ entries, e.who = who ∧ e.path = path) {role : Text} :
    role ∈ nearest entries who path ↔ ⟨path, who, role⟩ ∈ entries := by
  obtain ⟨rest, hrest⟩ := ancestry_cons path
  have hfind : ((ancestry path).find? fun up => entries.any fun e => e.who = who && e.path = up) =
      some path := by
    rw [hrest]
    apply List.find?_cons_of_pos
    obtain ⟨e, he, hwho, hpath⟩ := hany
    exact List.any_eq_true.mpr ⟨e, he, by simp [hwho, hpath]⟩
  unfold nearest
  rw [hfind]
  simp only [List.mem_map, List.mem_filter, Bool.and_eq_true, decide_eq_true_eq]
  constructor
  · rintro ⟨⟨path', who', role'⟩, ⟨he, rfl, rfl⟩, rfl⟩
    exact he
  · intro h
    exact ⟨_, ⟨h, rfl, rfl⟩, rfl⟩

end Nearest

/-! ## The user beside the tokens -/

section User

variable {tokens : List Acl} {path role : Text}

theorem mem_userAcl {e : Acl} : e ∈ userAcl tokens ↔
    e.who = .user hsUser ∧ (∃ f ∈ tokens, f.path = e.path) ∧
      ∃ f ∈ tokens, e.role ∈ nearest tokens f.who e.path := by
  unfold userAcl
  simp only [List.mem_flatMap, List.mem_map]
  constructor
  · rintro ⟨_, ⟨f, hf, rfl⟩, _, ⟨g, hg, rfl⟩, role, hrole, rfl⟩
    exact ⟨rfl, ⟨f, hf, rfl⟩, g, hg, hrole⟩
  · rintro ⟨hwho, ⟨f, hf, hpath⟩, g, hg, hrole⟩
    refine ⟨e.path, ⟨f, hf, hpath⟩, g.who, ⟨g, hg, rfl⟩, e.role, hrole, ?_⟩
    rw [← hwho]

/-- The user's entries do not change what a token resolves to. -/
theorem nearest_with_user {who : Principal} (hwho : who ≠ .user hsUser) :
    nearest (tokens ++ userAcl tokens) who path = nearest tokens who path := by
  have hnot : ∀ e ∈ userAcl tokens, ∀ up, ¬(e.who = who ∧ e.path = up) := by
    rintro e he up ⟨rfl, -⟩
    exact hwho (mem_userAcl.1 he).1
  have hany : ∀ up, ((tokens ++ userAcl tokens).any fun e => e.who = who && e.path = up) =
      tokens.any fun e => e.who = who && e.path = up := by
    intro up
    rw [List.any_append, Bool.or_eq_left_iff_imp]
    intro h
    obtain ⟨e, he, hsame⟩ := List.any_eq_true.mp h
    exact absurd (by simpa using hsame) (hnot e he up)
  have hfilter : ∀ up, ((tokens ++ userAcl tokens).filter fun e => e.who = who && e.path = up) =
      tokens.filter fun e => e.who = who && e.path = up := by
    intro up
    rw [List.filter_append, List.append_right_eq_self, List.filter_eq_nil_iff]
    intro e he hsame
    exact hnot e he up (by simpa using hsame)
  unfold nearest
  simp only [hany, hfilter]

/-- The user has entries exactly where a token has. -/
theorem nearest_user (htokens : ∀ e ∈ tokens, e.who ≠ .user hsUser) :
    role ∈ nearest (tokens ++ userAcl tokens) (.user hsUser) path ↔
      ∃ e ∈ tokens, role ∈ nearest tokens e.who path := by
  have hwhere : ∀ up, ((tokens ++ userAcl tokens).any fun e => e.who = .user hsUser && e.path = up) =
      tokens.any fun e => e.path = up := by
    intro up
    rw [Bool.eq_iff_iff, List.any_eq_true, List.any_eq_true]
    simp only [List.mem_append, Bool.and_eq_true, decide_eq_true_eq]
    constructor
    · rintro ⟨e, he | he, hwho, rfl⟩
      · exact absurd hwho (htokens e he)
      · exact (mem_userAcl.1 he).2.1
    · rintro ⟨e, he, rfl⟩
      refine ⟨⟨e.path, .user hsUser, e.role⟩, Or.inr (mem_userAcl.2 ⟨rfl, ⟨e, he, rfl⟩, e, he, ?_⟩), rfl, rfl⟩
      exact mem_nearest_of_mem he
  cases hlisted : listed tokens path with
  | none =>
    have huser : nearest (tokens ++ userAcl tokens) (.user hsUser) path = [] := by
      unfold nearest
      simp only [hwhere]
      rw [show (ancestry path).find? _ = _ from hlisted]
    rw [huser]
    simp [nearest_eq_nil hlisted]
  | some up =>
    have huser : nearest (tokens ++ userAcl tokens) (.user hsUser) path =
        nearest (tokens ++ userAcl tokens) (.user hsUser) up := by
      obtain ⟨hup, before, after, hpath, hbefore⟩ := List.find?_eq_some_iff_append.mp hlisted
      have hself : (ancestry up).find? (fun up => tokens.any fun e => e.path = up) = some up := by
        rw [ancestry_of_append hpath]
        exact List.find?_cons_of_pos (p := fun up => tokens.any fun e => e.path = up) hup
      unfold nearest
      simp only [hwhere]
      rw [show (ancestry path).find? _ = _ from hlisted, hself]
    have hup : ∃ f ∈ tokens, f.path = up := by
      obtain ⟨hup, -⟩ := List.find?_eq_some_iff_append.mp hlisted
      simpa using hup
    have hentry : ∃ e ∈ tokens ++ userAcl tokens, e.who = .user hsUser ∧ e.path = up := by
      have hany := (hwhere up).trans (List.any_eq_true.mpr (by simpa using hup))
      obtain ⟨e, he, hsame⟩ := List.any_eq_true.mp hany
      exact ⟨e, he, by simpa using hsame⟩
    rw [huser, mem_nearest_self hentry, List.mem_append, or_iff_right (fun h => htokens _ h rfl), mem_userAcl]
    simp only [nearest_eq hlisted, true_and, hup]

end User

/-! ## A run -/

section Run

variable (ctx : Context)

/-- The tokens whose entries the run owns. -/
def runScope : Command → List Text
  | .install => [ctx.token, deployToken]
  | .uninstall => (uninstallScope ctx.settings).1

def keepsUser : Command → Bool
  | .install => true
  | .uninstall => ctx.settings.test

/-- The target of the command. -/
def runTarget : Command → List Acl
  | .install => installTarget ctx
  | .uninstall => uninstallTarget ctx

def runInherit : Command → List Acl
  | .install => inheritAcl ctx
  | .uninstall => []

/-- The ACL after the command's ACL steps. -/
def runAcl (command : Command) : List Acl :=
  (ctx.state.steps (planAcl ctx.state (runTarget ctx command) (runInherit ctx command))).acl

/-- The tokens' entries of the target. -/
def runTokens (command : Command) : List Acl :=
  targetAcl ctx.state ctx.settings ctx.token ctx.sdnPath command false (runScope ctx command)

variable {ctx} {command : Command}

theorem runTarget_eq : runTarget ctx command =
    if keepsUser ctx command then runTokens ctx command ++ userAcl (runTokens ctx command)
    else runTokens ctx command := by
  cases command with
  | install => rfl
  | uninstall => rfl

/-- The entries of the tokens that the run does not own. -/
def otherEntries (ctx : Context) (command : Command) : List Acl :=
  ctx.state.managedAcl.filter (otherToken (runScope ctx command))

theorem runTokens_install : runTokens ctx .install =
    otherEntries ctx .install ++ tokenTargetAcl ctx.settings ctx.token ctx.sdnPath ++
      deployTargetAcl ctx.settings ctx.sdnPath := rfl

theorem runTokens_uninstall : runTokens ctx .uninstall =
    if ctx.settings.test then
      (otherEntries ctx .uninstall).filter fun entry =>
        entry.path ≠ "/pool/" ++ poolTest ∨ entry.who ≠ .token hsUser deployToken
    else otherEntries ctx .uninstall := by
  unfold runTokens targetAcl
  cases ctx.settings.test <;> rfl

/-- Every entry of the target but the user's is one of a HomeStack token. -/
theorem runTokens_who {e : Acl} (h : e ∈ runTokens ctx command) : ∃ id, e.who = .token hsUser id := by
  have hkept : ∀ e ∈ otherEntries ctx command, ∃ id, e.who = .token hsUser id := by
    intro e he
    obtain ⟨hmanaged, hother⟩ := List.mem_filter.mp he
    have hmanaged := (mem_managedAcl.mp hmanaged).2
    unfold otherToken at hother
    unfold Acl.managed at hmanaged
    cases hwho : e.who with
    | token owner id =>
      rw [hwho] at hmanaged
      exact ⟨id, by rw [of_decide_eq_true hmanaged]⟩
    | user name =>
      rw [hwho] at hother
      cases hother
    | group name =>
      rw [hwho] at hother
      cases hother
  have htoken : ∀ e ∈ tokenTargetAcl ctx.settings ctx.token ctx.sdnPath, ∃ id, e.who = .token hsUser id := by
    intro e he
    simp only [tokenTargetAcl, List.mem_append, List.mem_map, List.mem_singleton, aclToken] at he
    rcases he with (((rfl | ⟨_, -, rfl⟩) | ⟨_, -, rfl⟩) | ⟨_, -, rfl⟩) | rfl <;> exact ⟨_, rfl⟩
  have hdeploy : ∀ e ∈ deployTargetAcl ctx.settings ctx.sdnPath, ∃ id, e.who = .token hsUser id := by
    intro e he
    simp only [deployTargetAcl, List.mem_append, List.mem_map, List.mem_singleton, aclToken] at he
    rcases he with ((((⟨_, -, rfl⟩ | rfl) | ⟨_, -, rfl⟩) | rfl) | ⟨_, -, rfl⟩) | rfl <;> exact ⟨_, rfl⟩
  cases command with
  | install =>
    rw [runTokens_install, List.mem_append, List.mem_append] at h
    rcases h with (h | h) | h
    · exact hkept e h
    · exact htoken e h
    · exact hdeploy e h
  | uninstall =>
    rw [runTokens_uninstall] at h
    refine hkept e ?_
    split at h
    · exact (List.mem_filter.mp h).1
    · exact h

theorem runTarget_managed {e : Acl} (h : e ∈ runTarget ctx command) : e.managed = true := by
  have htoken : ∀ {e : Acl}, e ∈ runTokens ctx command → e.managed = true := by
    intro e he
    obtain ⟨id, hid⟩ := runTokens_who he
    unfold Acl.managed
    rw [hid]
    rfl
  rw [runTarget_eq] at h
  split at h
  · rcases List.mem_append.mp h with h | h
    · exact htoken h
    · unfold Acl.managed
      rw [(mem_userAcl.1 h).1]
      rfl
  · exact htoken h

/-- An unmanaged entry is not part of any step. -/
theorem mem_runAcl_unmanaged {e : Acl} (he : e.managed = false) :
    e ∈ runAcl ctx command ↔ e ∈ ctx.state.acl := by
  have htarget : e ∉ runTarget ctx command := fun h => by
    rw [runTarget_managed h] at he
    cases he
  unfold runAcl planAcl
  rw [State.steps_append, (mem_acl_take aclSteps_gives e).1, (mem_acl_give aclSteps_gives e).1,
    aclSteps_entries, aclSteps_entries, List.mem_filter, List.mem_filter]
  simp [mem_managedAcl, he, htarget]

theorem mem_runTarget_token {e : Acl} {id : Text} (hwho : e.who = .token hsUser id) :
    e ∈ runTarget ctx command ↔ e ∈ runTokens ctx command := by
  rw [runTarget_eq]
  split
  · rw [List.mem_append, or_iff_left]
    intro h
    rw [(mem_userAcl.1 h).1] at hwho
    cases hwho
  · rfl

/-- The entries of a token that the run does not own. -/
theorem mem_runTokens_other {e : Acl} {id : Text} (hwho : e.who = .token hsUser id)
    (hid : id ∉ runScope ctx command)
    (hdeploy : ¬(command = .uninstall ∧ ctx.settings.test = true ∧
    e.path = "/pool/" ++ poolTest ∧ id = deployToken)) :
    e ∈ runTokens ctx command ↔ e ∈ ctx.state.acl := by
  have hmanaged : e.managed = true := by
    unfold Acl.managed
    rw [hwho]
    rfl
  have hkept : e ∈ otherEntries ctx command ↔ e ∈ ctx.state.acl := by
    have hother : otherToken (runScope ctx command) e = true := by
      unfold otherToken
      rw [hwho]
      exact decide_eq_true hid
    unfold otherEntries
    rw [List.mem_filter, mem_managedAcl]
    simp [hmanaged, hother]
  cases command with
  | install =>
    have htoken : e ∉ tokenTargetAcl ctx.settings ctx.token ctx.sdnPath := by
      intro he
      simp only [tokenTargetAcl, List.mem_append, List.mem_map, List.mem_singleton, aclToken] at he
      have hself : e.who = .token hsUser ctx.token := by
        rcases he with (((rfl | ⟨_, -, rfl⟩) | ⟨_, -, rfl⟩) | ⟨_, -, rfl⟩) | rfl <;> rfl
      rw [hself] at hwho
      cases hwho
      exact hid (by simp [runScope])
    have hdeploy : e ∉ deployTargetAcl ctx.settings ctx.sdnPath := by
      intro he
      simp only [deployTargetAcl, List.mem_append, List.mem_map, List.mem_singleton, aclToken] at he
      have hself : e.who = .token hsUser deployToken := by
        rcases he with ((((⟨_, -, rfl⟩ | rfl) | ⟨_, -, rfl⟩) | rfl) | ⟨_, -, rfl⟩) | rfl <;> rfl
      rw [hself] at hwho
      cases hwho
      exact hid (by simp [runScope])
    rw [← hkept, runTokens_install, List.mem_append, List.mem_append]
    simp only [htoken, hdeploy, or_false]
  | uninstall =>
    rw [← hkept, runTokens_uninstall]
    split
    · next htest =>
      rw [List.mem_filter, and_iff_left_iff_imp]
      intro _
      have hor : e.path ≠ "/pool/" ++ poolTest ∨ e.who ≠ .token hsUser deployToken := by
        by_contra hnot
        push Not at hnot
        refine hdeploy ⟨rfl, htest, hnot.1, ?_⟩
        rw [hwho] at hnot
        exact Principal.token.inj hnot.2 |>.2
      exact decide_eq_true hor
    · rfl

/-- **The ACL of a run**: its steps make the managed entries the target and leave all
others alone. Where the user stays, it resolves on every path to just what the tokens
resolve to there. The entries of other tokens stay, the test part's uninstall apart,
which takes the deploy token from the test pool. -/
theorem acl_exact (ctx : Context) (command : Command) :
    (∀ e, e.managed = true → (e ∈ runAcl ctx command ↔ e ∈ runTarget ctx command)) ∧
    (∀ e, e.managed = false → (e ∈ runAcl ctx command ↔ e ∈ ctx.state.acl)) ∧
    (keepsUser ctx command = true → ∀ path role,
      (∀ id, role ∈ nearest (runTarget ctx command) (.token hsUser id) path →
        role ∈ nearest (runTarget ctx command) (.user hsUser) path) ∧
      (role ∈ nearest (runTarget ctx command) (.user hsUser) path →
        ∃ id, role ∈ nearest (runTarget ctx command) (.token hsUser id) path)) ∧
    ∀ e id, e.who = .token hsUser id → id ∉ runScope ctx command →
      ¬(command = .uninstall ∧ ctx.settings.test = true ∧ e.path = "/pool/" ++ poolTest ∧ id = deployToken) →
      (e ∈ runAcl ctx command ↔ e ∈ ctx.state.acl) := by
  have hmanaged : ∀ e, e.managed = true → (e ∈ runAcl ctx command ↔ e ∈ runTarget ctx command) :=
    fun e he => mem_acl_planAcl rfl he
  refine ⟨hmanaged, fun e he => mem_runAcl_unmanaged he, ?_, ?_⟩
  · intro hkeeps path role
    have htokens : ∀ e ∈ runTokens ctx command, e.who ≠ .user hsUser := by
      intro e he hwho
      obtain ⟨id, hid⟩ := runTokens_who he
      rw [hid] at hwho
      cases hwho
    have htoken : ∀ id, Principal.token hsUser id ≠ .user hsUser := fun id h => nomatch h
    rw [runTarget_eq, if_pos hkeeps]
    constructor
    · intro id hrole
      rw [nearest_with_user (htoken id)] at hrole
      -- a token that resolves to something has an entry
      have hentry : ∃ e ∈ runTokens ctx command, e.who = .token hsUser id := by
        unfold nearest at hrole
        split at hrole
        · cases hrole
        · obtain ⟨e, he, -⟩ := List.mem_map.mp hrole
          obtain ⟨he, hsame⟩ := List.mem_filter.mp he
          rw [Bool.and_eq_true, decide_eq_true_eq] at hsame
          exact ⟨e, he, hsame.1⟩
      obtain ⟨e, he, hwho⟩ := hentry
      exact (nearest_user htokens).mpr ⟨e, he, hwho ▸ hrole⟩
    · intro hrole
      obtain ⟨e, he, hrole⟩ := (nearest_user htokens).mp hrole
      obtain ⟨id, hid⟩ := runTokens_who he
      refine ⟨id, ?_⟩
      rw [nearest_with_user (htoken id), ← hid]
      exact hrole
  · intro e id hwho hid hdeploy
    have he : e.managed = true := by
      unfold Acl.managed
      rw [hwho]
      rfl
    rw [hmanaged e he, mem_runTarget_token hwho, mem_runTokens_other hwho hid hdeploy]

end Run

end HomeStack.Install
