import HomeStack.SetupOrder

/-! `build_plan` on entries of a parsed setup: the regrouping keeps the order of
the visits, and no two planned writes overlap. -/

namespace HomeStack.Setup

open scoped List

/-! ## Entries of a setup -/

/-- A parsed setup: items with distinct plain IDs, none of them generated. -/
structure SetupConfig where
  items : List Entry
  distinct : Distinct items
  ids : ∀ e ∈ items, setupId e.id = true
  plain : ∀ e ∈ items, ownerOf e = e.id

/-- A generated child of an item. -/
def SetupConfig.Child (setup : SetupConfig) (e : Entry) : Prop := ∃ a ∈ setup.items, e ∈ applicationChildren a

/-- The entry is an item or generated. -/
def SetupConfig.Has (setup : SetupConfig) (e : Entry) : Prop := e ∈ setup.items ∨ setup.Child e

theorem colon_not_mem {id : Text} (h : setupId id = true) : ':' ∉ id := by
  intro hmem
  cases id with
  | nil => cases hmem
  | cons c cs =>
    simp only [setupId, Bool.and_eq_true, List.all_eq_true] at h
    rcases List.mem_cons.mp hmem with rfl | hmem
    · exact absurd h.1 (by decide)
    · exact absurd (h.2 ':' hmem) (by decide)

theorem setupId_ne_nil {id : Text} (h : setupId id = true) : id ≠ [] := by
  rintro rfl
  cases h

/-- What all generated children have in common. -/
theorem applicationChildren_spec {a e : Entry} (ha : a.id ≠ []) (h : e ∈ applicationChildren a) :
    ownerOf e = a.id ∧ e.group = a.group ∧ e.dependsOn = [] ∧ ':' ∈ e.id := by
  unfold applicationChildren at h
  rcases List.mem_append.mp h with h | h
  · unfold configEntries at h
    cases happ : a.application with
    | none =>
      rw [happ] at h
      cases h
    | some application =>
      rw [happ] at h
      obtain ⟨config, -, h⟩ := List.mem_flatMap.mp h
      obtain ⟨⟨key, value⟩, -, rfl⟩ := List.mem_map.mp h
      exact ⟨rfl, rfl, rfl, by simp [configEntryId]⟩
  · unfold appFileEntries at h
    cases happ : a.application with
    | none =>
      rw [happ] at h
      cases h
    | some application =>
      rw [happ] at h
      obtain ⟨path, -, rfl⟩ := List.mem_map.mp h
      exact ⟨by simp [ownerOf, ha], rfl, rfl, by simp [appFileEntryId]⟩

section FromSetup

variable {setup : SetupConfig} {e : Entry}

theorem SetupConfig.Child.spec (h : setup.Child e) :
    ∃ a ∈ setup.items, ownerOf e = a.id ∧ e.group = a.group ∧ e.dependsOn = [] ∧ ':' ∈ e.id := by
  obtain ⟨a, ha, he⟩ := h
  exact ⟨a, ha, applicationChildren_spec (setupId_ne_nil (setup.ids a ha)) he⟩

/-- The owner of an entry is an item of its group. -/
theorem SetupConfig.Has.owner (h : setup.Has e) :
    ∃ a ∈ setup.items, ownerOf e = a.id ∧ e.group = a.group := by
  rcases h with h | h
  · exact ⟨e, h, setup.plain e h, rfl⟩
  · obtain ⟨a, ha, howner, hgroup, -⟩ := h.spec
    exact ⟨a, ha, howner, hgroup⟩

/-- Entries of one owner are of one group. -/
theorem SetupConfig.Has.group_eq {f : Entry} (he : setup.Has e) (hf : setup.Has f)
    (h : ownerOf e = ownerOf f) :
    e.group = f.group := by
  obtain ⟨a, ha, hea, hga⟩ := he.owner
  obtain ⟨b, hb, hfb, hgb⟩ := hf.owner
  have : a = b := setup.distinct.eq ha hb (by rw [← hea, ← hfb, h])
  rw [hga, hgb, this]

/-- An entry with a plain ID is an item. -/
theorem SetupConfig.Has.item (h : setup.Has e) (hid : setupId e.id = true) : e ∈ setup.items := by
  rcases h with h | h
  · exact h
  · obtain ⟨a, -, -, -, -, hcolon⟩ := h.spec
    exact absurd hcolon (colon_not_mem hid)

end FromSetup

/-- Children of selected applications are of the setup too. -/
theorem Chosen.has {setup : SetupConfig} {entries : List Entry} {includeConfigs : Bool} {e : Entry}
    (hentries : ∀ e ∈ entries, setup.Has e) (h : Chosen entries includeConfigs e) : setup.Has e := by
  rcases h with h | ⟨-, a, ha, h⟩
  · exact hentries e h
  · rcases hentries a ha with hitem | ⟨b, hb, hchild⟩
    · exact Or.inr ⟨a, hitem, h⟩
    · -- a generated child is no application
      have hnone : a.application = none := by
        unfold applicationChildren at hchild
        rcases List.mem_append.mp hchild with hchild | hchild
        · unfold configEntries at hchild
          split at hchild
          · cases hchild
          · obtain ⟨config, -, hchild⟩ := List.mem_flatMap.mp hchild
            obtain ⟨⟨key, value⟩, -, rfl⟩ := List.mem_map.mp hchild
            rfl
        · unfold appFileEntries at hchild
          split at hchild
          · cases hchild
          · obtain ⟨path, -, rfl⟩ := List.mem_map.mp hchild
            rfl
      simp [applicationChildren, configEntries, appFileEntries, hnone] at h

/-! ## Regrouping -/

section Regroup

variable {setup : SetupConfig} {selected l : List Entry}

/-- **Regrouping.** What an entry needs still stands before it: only generated
children move, and they need nothing but their application. -/
theorem Linear.regroup_before (h : Linear selected l) (hset : ∀ e ∈ selected, setup.Has e) {e a : Entry}
    (he : e ∈ selected) (hn : Needs selected e a) : [a, e] <+ Grouping.regroup ownerOf l := by
  obtain ⟨pre, post, hl, ha, hpre⟩ := h.ordered.split (h.all e he) hn
  by_cases howner : ownerOf a = ownerOf e
  · apply Grouping.before_of_key_eq ownerOf _ howner
    rw [hl]
    exact (List.singleton_sublist.mpr ha).append (List.singleton_sublist.mpr (by simp))
  · have hitem : e ∈ setup.items := by
      rcases hset e he with hitem | hchild
      · exact hitem
      · obtain ⟨b, hb, hown, -, hdeps, -⟩ := hchild.spec
        exfalso
        obtain ⟨hsel, hdep | ⟨hid, -⟩⟩ := hn
        · rw [hdeps] at hdep
          cases hdep
        · have hplain : setupId a.id = true := by
            rw [hid, hown]
            exact setup.ids b hb
          exact howner (by rw [setup.plain a ((hset a hsel).item hplain), hid])
    rw [hl]
    apply Grouping.before_of_leads ownerOf pre (e :: post) ⟨a, ha, rfl⟩ _ (by simp [ha]) (by simp)
    -- no entry of its unit stands before an item
    intro c hc hce
    rw [setup.plain e hitem] at hce
    have hcsel : c ∈ selected := h.ordered.subset c (by rw [hl]; simp [hc])
    by_cases hself : ownerOf c = c.id
    · have hceq : c = e := by
        have hcitem : c ∈ setup.items := (hset c hcsel).item (by rw [← hself, hce]; exact setup.ids e hitem)
        exact setup.distinct.eq hcitem hitem (by rw [← hself, hce])
      exact hpre (hceq ▸ hc)
    · obtain ⟨pre', post', rfl⟩ := List.append_of_mem hc
      have hready := h.ordered.ready pre' c (post' ++ e :: post) (by rw [hl]; simp)
      have hin := hready.needs e ⟨he, Or.inr ⟨hce.symm, hself⟩⟩
      exact hpre (List.mem_append_left _ hin)

/-- A credential before another kind of entry belongs with one that is needed. -/
theorem Linear.regroup_creds (h : Linear selected l) (hset : ∀ e ∈ selected, setup.Has e) {c n : Entry}
    (hcn : [c, n] <+ Grouping.regroup ownerOf l) (hc : c.group = credentialsGroup)
    (hn : n.group ≠ credentialsGroup) :
    ∃ d ∈ selected, ownerOf d = ownerOf c ∧
      ∃ m ∈ selected, m.group ≠ credentialsGroup ∧ Relation.TransGen (Needs selected) m d := by
  have hhas : ∀ x ∈ [c, n], setup.Has x := fun x hx =>
    hset x (h.ordered.subset x ((Grouping.mem_regroup ownerOf).mp (hcn.subset hx)))
  have hne : ownerOf c ≠ ownerOf n := fun heq =>
    hn ((hhas c (by simp)).group_eq (hhas n (by simp)) heq ▸ hc)
  obtain ⟨d, hd, hdn⟩ := Grouping.leads_of_before ownerOf hcn hne
  have hdsel : d ∈ selected := h.ordered.subset d (hdn.subset (by simp))
  have hdgroup : d.group = credentialsGroup := by
    rw [(hset d hdsel).group_eq (hhas c (by simp)) hd, hc]
  exact ⟨d, hdsel, hd, h.creds d n hdn hdgroup hn⟩

end Regroup

/-! ## Writes -/

/-- Two writes that do not collide. -/
def Apart (w v : Text × Entry) : Prop := Overlap v.1 w.1 → Allowed v.1 v.2 w.1 w.2

theorem Overlap.symm {p q : Text} (h : Overlap p q) : Overlap q p := by
  rcases h with rfl | h | h
  · exact Or.inl rfl
  · exact Or.inr (Or.inr h)
  · exact Or.inr (Or.inl h)

theorem SharedDocument.symm {e f : Entry} (h : SharedDocument e f) : SharedDocument f e := by
  unfold SharedDocument at *
  split at h
  · next he hf =>
    rw [he, hf]
    exact ⟨h.1.symm, h.2.symm⟩
  · exact h.elim

theorem BashExports.symm {e f : Entry} (h : BashExports e f) : BashExports f e := by
  unfold BashExports at *
  split at h
  · next he hf =>
    rw [he, hf]
    exact h
  · next he hf =>
    rw [he, hf]
    exact h
  · exact h.elim

theorem Allowed.symm {p q : Text} {e f : Entry} (h : Allowed p e q f) : Allowed q f p e := by
  rcases h with ⟨rfl, h⟩ | ⟨hp, rfl, h⟩
  · exact Or.inl ⟨rfl, h.symm⟩
  · exact Or.inr ⟨hp, rfl, h.symm⟩

theorem Apart.symm {w v : Text × Entry} (h : Apart w v) : Apart v w := fun hov => (h hov.symm).symm

instance : Std.Symm Apart := ⟨fun _ _ => Apart.symm⟩

theorem checkWrite_ok {entry : Entry} {writes writes' : Writes} {path : Text}
    (h : checkWrite entry writes path = .ok writes') (hw : writes.Pairwise Apart) :
    writes' = writes ++ [(path, entry)] ∧ writes'.Pairwise Apart := by
  unfold checkWrite at h
  obtain ⟨u, hall, h⟩ := Except.bind_ok h
  cases h
  refine ⟨rfl, List.pairwise_append.mpr ⟨hw, by simp, ?_⟩⟩
  intro w hwm v hv
  rw [List.mem_singleton.mp hv]
  intro hov
  have hone := Except.forM_ok hall w hwm
  dsimp only at hone
  split at hone
  · cases hone
  · next hok =>
    rw [not_and, not_not] at hok
    exact hok hov

/-- The writes of some entries, in order. -/
def writesOf (settings : Settings) (entries : List Entry) : Writes :=
  entries.flatMap fun e => (writePaths settings e).map fun path => (path, e)

section Build

variable {sourceItem : Entry → Except AppError Unit} {settings : Settings} {unattended : Bool}

theorem checkEntry_ok {entry : Entry} {writes writes' : Writes}
    (h : checkEntry sourceItem settings unattended writes entry = .ok writes') (hw : writes.Pairwise Apart) :
    writes' = writes ++ (writePaths settings entry).map (fun path => (path, entry)) ∧
      writes'.Pairwise Apart := by
  have hpaths : (writePaths settings entry).foldlM (checkWrite entry) writes = .ok writes' := by
    unfold checkEntry at h
    split at h
    · exact (Except.guard_ok h).2
    · obtain ⟨u, -, h⟩ := Except.bind_ok h
      exact h
    · exact h
  refine Except.foldlM_ok (I := fun done w =>
    w = writes ++ done.map (fun path => (path, entry)) ∧ w.Pairwise Apart) ?_ ⟨by simp, hw⟩ hpaths
  rintro done path w v ⟨rfl, hpw⟩ hstep
  obtain ⟨rfl, hpw⟩ := checkWrite_ok hstep hpw
  exact ⟨by simp, hpw⟩

theorem checkEntries_ok {entries : List Entry} {writes : Writes}
    (h : entries.foldlM (checkEntry sourceItem settings unattended) [] = .ok writes) :
    (writesOf settings entries).Pairwise Apart := by
  have hinv : writes = writesOf settings entries ∧ writes.Pairwise Apart := by
    refine Except.foldlM_ok (I := fun done w => w = writesOf settings done ∧ w.Pairwise Apart) ?_
      ⟨rfl, List.Pairwise.nil⟩ h
    rintro done e w v ⟨rfl, hpw⟩ hstep
    obtain ⟨rfl, hpw⟩ := checkEntry_ok hstep hpw
    exact ⟨by simp [writesOf], hpw⟩
  exact hinv.1 ▸ hinv.2

theorem apart_of_pairwise {entries : List Entry} (h : (writesOf settings entries).Pairwise Apart)
    {e f : Entry} (he : e ∈ entries) (hf : f ∈ entries) (hne : e ≠ f) {p q : Text}
    (hp : p ∈ writePaths settings e) (hq : q ∈ writePaths settings f) (hov : Overlap p q) :
    Allowed p e q f := by
  have hmem : ∀ {x path}, x ∈ entries → path ∈ writePaths settings x →
      (path, x) ∈ writesOf settings entries :=
    fun hx hpath => List.mem_flatMap.mpr ⟨_, hx, List.mem_map.mpr ⟨_, hpath, rfl⟩⟩
  have hapart : Apart (q, f) (p, e) := by
    refine h.forall (hmem hf hq) (hmem he hp) fun heq => hne ?_
    exact (congrArg Prod.snd heq).symm
  exact hapart hov

end Build

/-! ## Building -/

section Plan

variable (sourceItem : Entry → Except AppError Unit)

/-- As many visits can be nested as there are selected entries. -/
theorem orderPlan_isSome (settings : Settings) (entries : List Entry) (unattended : Bool) :
    (orderPlan sourceItem settings entries unattended ((selectedOf entries).length + 1)).run.isSome := by
  have hleft : left (selectedOf entries) [] < (selectedOf entries).length + 1 := by
    have := List.length_filter_le (fun e => decide (e.id ∉ ([] : List Text))) (selectedOf entries)
    unfold left
    omega
  unfold orderPlan
  apply ExceptT.bind_isSome
  · exact visitAll_isSome (selectedOf_distinct entries) (fun e he => mem_sorted.mp he)
      (Ordered.nil _) hleft
  · rintro ⟨ordered, visiting⟩ -
    apply ExceptT.bind_isSome
    · rfl
    · intro _ _
      rfl

/-- The visits and checks of `build_plan`. -/
def planEntries (settings : Settings) (entries : List Entry) (unattended : Bool) :
    Except AppError (List Entry) :=
  (orderPlan sourceItem settings entries unattended ((selectedOf entries).length + 1)).run.get
    (orderPlan_isSome sourceItem settings entries unattended)

def buildPlan (settings : Settings) (target : Target) (entries : List Entry) (catalogId : Option Text)
    (unattended includeConfigs : Bool) : Except AppError Plan := do
  match entries.find? fun entry => entry.params = .unavailable with
  | some entry => throw ⟨entry.label ++ " cannot be installed yet"⟩
  | none => pure ()
  if target.isLocal = true ∧ entries ≠ [] then throw ⟨"Desktop setup has no installable items"⟩
  let entries := if includeConfigs then expandConfigEntries entries else entries
  if entries = [] ∨ (target.isLocal = false ∧ target.vmid = 0) ∨ target.name = [] then
    throw ⟨"An explicit resolved workspace and at least one action are required"⟩
  if settings.uid = 0 ∨ settings.gid = 0 ∨ settings.user = "root" then
    throw ⟨"Setup requires an unprivileged configured workspace user"⟩
  let ordered ← planEntries sourceItem settings entries unattended
  pure ⟨target, ordered, catalogId, unattended⟩

variable {sourceItem : Entry → Except AppError Unit} {settings : Settings} {target : Target}
  {entries : List Entry} {catalogId : Option Text} {unattended includeConfigs : Bool} {plan : Plan}

theorem planEntries_ok {planned : List Entry}
    (h : planEntries sourceItem settings entries unattended = .ok planned) :
    ∃ l, Linear (selectedOf entries) l ∧ planned = Grouping.regroup ownerOf l ∧
      (writesOf settings planned).Pairwise Apart := by
  have hrun : (orderPlan sourceItem settings entries unattended ((selectedOf entries).length + 1)).run =
      some (.ok planned) := by
    rw [← h]
    exact (Option.some_get _).symm
  unfold orderPlan at hrun
  obtain ⟨⟨l, visiting⟩, hl, hrun⟩ := ExceptT.bind_some_ok hrun
  obtain ⟨writes, hwrites, hrun⟩ := ExceptT.bind_some_ok hrun
  cases hrun
  exact ⟨l, orderedOf_linear (selectedOf_distinct entries) hl, rfl, checkEntries_ok (Option.some.inj hwrites)⟩

theorem buildPlan_ok (h : buildPlan sourceItem settings target entries catalogId unattended
    includeConfigs = .ok plan) :
    ∃ l, Linear (selection entries includeConfigs) l ∧ plan.entries = Grouping.regroup ownerOf l ∧
      (writesOf settings plan.entries).Pairwise Apart := by
  unfold buildPlan at h
  cases hfind : entries.find? fun entry => entry.params = .unavailable with
  | some entry =>
    rw [hfind] at h
    cases h
  | none =>
    rw [hfind] at h
    obtain ⟨-, h⟩ := Except.guard_ok h
    obtain ⟨-, h⟩ := Except.guard_ok h
    obtain ⟨-, h⟩ := Except.guard_ok h
    obtain ⟨planned, hplanned, h⟩ := Except.bind_ok h
    cases h
    exact planEntries_ok hplanned

/-- What a plan promises about its entries. -/
structure Linearised (settings : Settings) (entries : List Entry) (includeConfigs : Bool)
    (planned : List Entry) : Prop where
  chosen : ∀ e ∈ planned, Chosen entries includeConfigs e
  complete : ∀ e, Chosen entries includeConfigs e → ∃ x ∈ planned, x.id = e.id
  distinct : Distinct planned
  dependencies : ∀ e ∈ planned, ∀ id ∈ e.dependsOn, ∃ a ∈ planned, a.id = id ∧ [a, e] <+ planned
  owners : ∀ e ∈ planned, ∀ a ∈ planned, a.id = ownerOf e → a ≠ e → [a, e] <+ planned
  contiguous : ∀ a b c, [a, b, c] <+ planned → ownerOf a = ownerOf c → ownerOf b = ownerOf a
  /-- A credential that stands before another kind of entry belongs to an
  application with an entry that such an entry needs. -/
  credentials : ∀ c n, [c, n] <+ planned → c.group = credentialsGroup → n.group ≠ credentialsGroup →
    ∃ d ∈ planned, ownerOf d = ownerOf c ∧
      ∃ m ∈ planned, m.group ≠ credentialsGroup ∧ Relation.TransGen (Needs planned) m d
  writes : ∀ e ∈ planned, ∀ f ∈ planned, e ≠ f → ∀ p ∈ writePaths settings e, ∀ q ∈ writePaths settings f,
    Overlap p q → p = q ∧ (SharedDocument e f ∨ p = ".bashrc" ∧ BashExports e f)

theorem needs_congr {l₁ l₂ : List Entry} (h : ∀ e, e ∈ l₁ ↔ e ∈ l₂) : Needs l₁ = Needs l₂ := by
  funext e a
  unfold Needs
  rw [h a]

theorem linearised_of_regroup {setup : SetupConfig} (hentries : ∀ e ∈ entries, setup.Has e)
    {l planned : List Entry} (h : Linear (selection entries includeConfigs) l)
    (hplanned : planned = Grouping.regroup ownerOf l) (hwrites : (writesOf settings planned).Pairwise Apart) :
    Linearised settings entries includeConfigs planned := by
  have hset : ∀ e ∈ selection entries includeConfigs, setup.Has e :=
    fun e he => (mem_selection he).has hentries
  have hmem : ∀ e, e ∈ planned ↔ e ∈ selection entries includeConfigs := by
    intro e
    rw [hplanned, Grouping.mem_regroup]
    exact ⟨h.ordered.subset e, h.all e⟩
  have hneeds := needs_congr hmem
  constructor
  case chosen => exact fun e he => mem_selection ((hmem e).mp he)
  case complete =>
    intro e he
    obtain ⟨x, hx, hid⟩ := selection_ids he
    exact ⟨x, (hmem x).mpr hx, hid⟩
  case distinct =>
    rw [hplanned]
    exact ((Grouping.regroup_perm ownerOf l).map Entry.id).nodup_iff.mpr h.ordered.distinct
  case dependencies =>
    intro e he id hid
    have hsel := (hmem e).mp he
    obtain ⟨a, ha, hid'⟩ := h.sound.1 e hsel id hid
    refine ⟨a, (hmem a).mpr ha, hid', ?_⟩
    rw [hplanned]
    exact h.regroup_before hset hsel ⟨ha, Or.inl (hid' ▸ hid)⟩
  case owners =>
    intro e he a ha howner hne
    have hsel := (hmem e).mp he
    have hasel := (hmem a).mp ha
    rw [hplanned]
    refine h.regroup_before hset hsel ⟨hasel, Or.inr ⟨howner, fun hself => hne ?_⟩⟩
    exact (selectedOf_distinct _).eq hasel hsel (howner.trans hself)
  case contiguous =>
    intro a b c habc
    rw [hplanned] at habc
    exact Grouping.contiguous ownerOf habc
  case credentials =>
    intro c n hcn hc hn
    rw [hplanned] at hcn
    obtain ⟨d, hd, hown, m, hm, hgroup, hreach⟩ := h.regroup_creds hset hcn hc hn
    exact ⟨d, (hmem d).mpr hd, hown, m, (hmem m).mpr hm, hgroup, hneeds ▸ hreach⟩
  case writes =>
    intro e he f hf hne p hp q hq hov
    rcases apart_of_pairwise hwrites he hf hne hp hq hov with ⟨rfl, hdoc⟩ | ⟨hbash, rfl, hexp⟩
    · exact ⟨rfl, Or.inl hdoc⟩
    · exact ⟨rfl, Or.inr ⟨hbash, hexp⟩⟩

/-- The selection cannot be ordered. -/
def Unorderable (selected : List Entry) : Prop :=
  ∃ e ∈ selected, (∃ id ∈ e.dependsOn, ∀ a ∈ selected, a.id ≠ id) ∨ Relation.TransGen (Needs selected) e e

/-- A plan is a linearisation of its selection, and a selection with a cycle or a
missing dependency gets none. -/
theorem build_plan_linearises (sourceItem : Entry → Except AppError Unit) (settings : Settings)
    (target : Target) (catalogId : Option Text) (unattended includeConfigs : Bool) {setup : SetupConfig}
    {entries : List Entry} (hentries : ∀ e ∈ entries, setup.Has e) :
    (∀ plan, buildPlan sourceItem settings target entries catalogId unattended includeConfigs = .ok plan →
      Linearised settings entries includeConfigs plan.entries) ∧
    (Unorderable (selection entries includeConfigs) →
      ∃ error, buildPlan sourceItem settings target entries catalogId unattended includeConfigs =
        .error error) := by
  constructor
  · intro plan h
    obtain ⟨l, hl, hplanned, hwrites⟩ := buildPlan_ok h
    exact linearised_of_regroup hentries hl hplanned hwrites
  · rintro ⟨e, he, hbad⟩
    cases h : buildPlan sourceItem settings target entries catalogId unattended includeConfigs with
    | error error => exact ⟨error, rfl⟩
    | ok plan =>
      obtain ⟨l, hl, -⟩ := buildPlan_ok h
      exfalso
      rcases hbad with ⟨id, hid, hmissing⟩ | hcycle
      · obtain ⟨a, ha, hida⟩ := hl.sound.1 e he id hid
        exact hmissing a ha hida
      · exact hl.sound.2 e he hcycle

end Plan

/-! ## A credential application -/

def vault : Entry where
  id := "vault"
  group := "cred"
  handler := "application"
  label := "Vault"
  description := "Install Vault."
  params := .application
    { command := "true", interpreter := "bash", interaction := "non-interactive",
      prerequisites := [], check := [],
      prerequisiteChecks := [], nonInteractive := [], binDirs := ["~/.local/bin"], requiresAbsent := [],
      backupPaths := [], files := ["~/.vault"], configFiles := [], validation := none }
  dependsOn := []

def bash : Entry where
  id := "bash"
  group := "env"
  handler := "environment"
  label := "Bash"
  description := "Prepare Bash startup files and user executable paths."
  params := .environment "bash"
  dependsOn := ["vault"]

/-- The generated copy of `~/.vault`. -/
def vaultFile : Entry where
  id := "vault:file:~/.vault"
  group := "cred"
  handler := "file"
  label := "~/.vault"
  description := "Copy ~/.vault from the trusted desktop."
  params := .file "~/.vault" (some "vault")
  dependsOn := []

def vaultSetup : SetupConfig where
  items := [vault, bash]
  distinct := by
    unfold Distinct
    decide
  ids := by decide
  plain := by decide

def sampleSettings : Settings where
  user := "user"
  uid := 1000
  gid := 1000
  checkoutRoot := "~/src"

def sampleTarget : Target where
  vmid := 100
  name := "ws"
  node := "pve"
  status := "running"
  alien := false
  ip := []
  user := "user"
  home := "/home/user"
  isLocal := false

theorem vaultSetup_has : ∀ e ∈ [vault, bash], vaultSetup.Has e := fun _ he => Or.inl he

def vaultPlan : Plan := ⟨sampleTarget, [vault, vaultFile, bash], none, true⟩

theorem buildPlan_vault :
    buildPlan (fun _ => .ok ()) sampleSettings sampleTarget [vault, bash] none true true = .ok vaultPlan := by
  apply Except.ok_of_toOption
  decide +kernel

theorem build_plan_linearises_vault : Linearised sampleSettings [vault, bash] true [vault, vaultFile, bash] :=
  (build_plan_linearises (fun _ => .ok ()) sampleSettings sampleTarget none true true
    vaultSetup_has).1 vaultPlan
    buildPlan_vault

instance (selected : List Entry) (e a : Entry) : Decidable (Needs selected e a) :=
  inferInstanceAs (Decidable (_ ∧ (_ ∨ _ ∧ _)))

/-- Bash needs the application and gets its file copy before it as well. -/
theorem credential_before_unrelated :
    buildPlan (fun _ => .ok ()) sampleSettings sampleTarget [vault, bash] none true true = .ok vaultPlan ∧
      [vaultFile, bash] <+ vaultPlan.entries ∧ vaultFile.group = credentialsGroup ∧
      bash.group ≠ credentialsGroup ∧
      ¬∃ m ∈ vaultPlan.entries, m.group ≠ credentialsGroup ∧
        Relation.TransGen (Needs vaultPlan.entries) m vaultFile := by
  have hnone : ∀ e ∈ vaultPlan.entries, ¬Needs vaultPlan.entries e vaultFile := by decide
  refine ⟨buildPlan_vault, by decide, rfl, by decide, ?_⟩
  rintro ⟨m, hm, -, hreach⟩
  cases hreach with
  | single hn => exact hnone m hm hn
  | tail hreach hn =>
    cases hreach with
    | single hb => exact hnone _ hb.1 hn
    | tail _ hb => exact hnone _ hb.1 hn

end HomeStack.Setup
