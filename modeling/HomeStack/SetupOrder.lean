import HomeStack.Lib.Result
import HomeStack.SetupPlan

/-! The plan is a linearisation of the selection: what a visit adds to the
ordered entries, the phases, and the regrouping of applications. -/

namespace HomeStack.Setup

open scoped List

/-! ## Selections -/

/-- One entry per ID. -/
def Distinct (l : List Entry) : Prop := (l.map Entry.id).Nodup

theorem Distinct.eq {l : List Entry} (h : Distinct l) {a b : Entry} (ha : a ∈ l) (hb : b ∈ l)
    (hid : a.id = b.id) : a = b := List.inj_on_of_nodup_map h ha hb hid

theorem findId_some {selected : List Entry} {id : Text} {e : Entry} (h : findId selected id = some e) :
    e ∈ selected ∧ e.id = id := by
  unfold findId at h
  exact ⟨List.mem_of_find?_eq_some h, by simpa using List.find?_some h⟩

theorem findId_of_mem {selected : List Entry} (hs : Distinct selected) {e : Entry} (he : e ∈ selected) :
    findId selected e.id = some e := by
  cases h : findId selected e.id with
  | none =>
    unfold findId at h
    have := List.find?_eq_none.mp h e he
    simp at this
  | some f =>
    obtain ⟨hf, hid⟩ := findId_some h
    rw [hs.eq hf he hid]

/-- `a` has to run before `e`. -/
def Needs (selected : List Entry) (e a : Entry) : Prop :=
  a ∈ selected ∧ (a.id ∈ e.dependsOn ∨ a.id = ownerOf e ∧ ownerOf e ≠ e.id)

/-- All that `e` needs is in `l`. -/
structure Ready (selected l : List Entry) (e : Entry) : Prop where
  found : ∀ id ∈ e.dependsOn, ∃ a ∈ selected, a.id = id
  needs : ∀ a, Needs selected e a → a ∈ l

/-- Distinct selected entries, each ready when its turn comes. -/
structure Ordered (selected l : List Entry) : Prop where
  distinct : Distinct l
  subset : ∀ e ∈ l, e ∈ selected
  ready : ∀ pre e post, l = pre ++ e :: post → Ready selected pre e

theorem Ordered.nil (selected : List Entry) : Ordered selected [] where
  distinct := List.nodup_nil
  subset := fun e he => nomatch he
  ready := fun pre e post h => by simp at h

theorem Ordered.snoc {selected l : List Entry} {e : Entry} (h : Ordered selected l)
    (hid : e.id ∉ l.map Entry.id) (he : e ∈ selected) (hready : Ready selected l e) :
    Ordered selected (l ++ [e]) where
  distinct := by
    unfold Distinct
    rw [List.map_append, List.nodup_append]
    refine ⟨h.distinct, by simp, ?_⟩
    rintro a ha b hb rfl
    simp only [List.map_cons, List.map_nil, List.mem_singleton] at hb
    exact hid (hb ▸ ha)
  subset := by
    intro x hx
    rcases List.mem_append.mp hx with hx | hx
    · exact h.subset x hx
    · rw [List.mem_singleton.mp hx]
      exact he
  ready := by
    intro pre x post hl
    rcases List.eq_nil_or_concat post with rfl | ⟨post, y, rfl⟩
    · obtain ⟨rfl, hx⟩ := List.append_inj' hl rfl
      cases hx
      exact hready
    · rw [List.concat_eq_append, ← List.cons_append, ← List.append_assoc] at hl
      exact h.ready pre x post (List.append_inj' hl rfl).1

/-! ## Visits -/

section Visit

variable {selected : List Entry}

/-- What a successful visit does: the IDs being visited are as before, and the
new entries are needed by one of the `roots` and not being visited. -/
structure Grows (selected : List Entry) (roots : Entry → Prop) (s t : Visiting) : Prop where
  visiting : t.2 = s.2
  ordered : Ordered selected t.1
  grown : ∃ new, t.1 = s.1 ++ new ∧
    ∀ x ∈ new, x.id ∉ s.2 ∧ ∃ r, roots r ∧ Relation.ReflTransGen (Needs selected) r x

theorem Grows.refl {roots : Entry → Prop} {s : Visiting} (h : Ordered selected s.1) :
    Grows selected roots s s :=
  ⟨rfl, h, [], by simp, by simp⟩

theorem Grows.trans {roots : Entry → Prop} {s t u : Visiting} (h₁ : Grows selected roots s t)
    (h₂ : Grows selected roots t u) : Grows selected roots s u := by
  obtain ⟨new₁, he₁, hnew₁⟩ := h₁.grown
  obtain ⟨new₂, he₂, hnew₂⟩ := h₂.grown
  refine ⟨h₂.visiting.trans h₁.visiting, h₂.ordered, new₁ ++ new₂, by rw [he₂, he₁, List.append_assoc], ?_⟩
  intro x hx
  rcases List.mem_append.mp hx with hx | hx
  · exact hnew₁ x hx
  · rw [← h₁.visiting]
    exact hnew₂ x hx

theorem Grows.mono {roots roots' : Entry → Prop} {s t : Visiting} (h : Grows selected roots s t)
    (hr : ∀ r, roots r → ∃ r', roots' r' ∧ Relation.ReflTransGen (Needs selected) r' r) :
    Grows selected roots' s t := by
  obtain ⟨new, he, hnew⟩ := h.grown
  refine ⟨h.visiting, h.ordered, new, he, fun x hx => ?_⟩
  obtain ⟨hid, r, hroot, hreach⟩ := hnew x hx
  obtain ⟨r', hroot', hreach'⟩ := hr r hroot
  exact ⟨hid, r', hroot', hreach'.trans hreach⟩

theorem Grows.kept {roots : Entry → Prop} {s t : Visiting} (h : Grows selected roots s t) {x : Entry}
    (hx : x ∈ s.1) : x ∈ t.1 := by
  obtain ⟨new, he, -⟩ := h.grown
  rw [he]
  exact List.mem_append_left _ hx

/-- What is shown of one visit. -/
def Visits (selected : List Entry) (go : Entry → Visiting → Visit Visiting) : Prop :=
  ∀ e s t, e ∈ selected → Ordered selected s.1 → (go e s).run = some (.ok t) →
    Grows selected (· = e) s t ∧ e ∈ t.1

theorem visitEach_grows {go : Entry → Visiting → Visit Visiting} (hgo : Visits selected go) (id : Text)
    {deps : List Text} {s t : Visiting} (hs : Ordered selected s.1)
    (h : (visitEach go selected id deps s).run = some (.ok t)) :
    Grows selected (fun r => r ∈ selected ∧ r.id ∈ deps) s t ∧
      ∀ dep ∈ deps, ∃ a, findId selected dep = some a ∧ a ∈ t.1 := by
  induction deps generalizing s with
  | nil =>
    cases h
    exact ⟨Grows.refl hs, by simp⟩
  | cons dep deps ih =>
    unfold visitEach at h
    cases hfind : findId selected dep with
    | none =>
      rw [hfind] at h
      cases h
    | some required =>
      rw [hfind] at h
      obtain ⟨u, hu, h⟩ := ExceptT.bind_some_ok h
      obtain ⟨hmem, hid⟩ := findId_some hfind
      obtain ⟨hgrow, hin⟩ := hgo required s u hmem hs hu
      obtain ⟨hrest, hall⟩ := ih hgrow.ordered h
      refine ⟨Grows.trans (hgrow.mono ?_) (hrest.mono ?_), ?_⟩
      · rintro r rfl
        exact ⟨r, ⟨hmem, by simp [hid]⟩, Relation.ReflTransGen.refl⟩
      · rintro r ⟨hr, hdep⟩
        exact ⟨r, ⟨hr, List.mem_cons_of_mem _ hdep⟩, Relation.ReflTransGen.refl⟩
      · intro d hd
        rcases List.mem_cons.mp hd with rfl | hd
        · exact ⟨required, hfind, hrest.kept hin⟩
        · exact hall d hd

theorem visitOwner_grows {go : Entry → Visiting → Visit Visiting} (hgo : Visits selected go) {e : Entry}
    {s t : Visiting} (hs : Ordered selected s.1) (h : (visitOwner go selected e s).run = some (.ok t)) :
    Grows selected (fun r => r ∈ selected ∧ r.id = ownerOf e ∧ ownerOf e ≠ e.id) s t ∧
      ∀ a, ownerOf e ≠ e.id → findId selected (ownerOf e) = some a → a ∈ t.1 := by
  unfold visitOwner at h
  by_cases howner : ownerOf e ≠ e.id
  · rw [if_pos howner] at h
    cases hfind : findId selected (ownerOf e) with
    | none =>
      rw [hfind] at h
      cases h
      exact ⟨Grows.refl hs, fun a _ ha => nomatch ha⟩
    | some application =>
      rw [hfind] at h
      obtain ⟨hmem, hid⟩ := findId_some hfind
      obtain ⟨hgrow, hin⟩ := hgo application s t hmem hs h
      refine ⟨hgrow.mono ?_, ?_⟩
      · rintro r rfl
        exact ⟨r, ⟨hmem, hid, howner⟩, Relation.ReflTransGen.refl⟩
      · rintro a - ha
        cases ha
        exact hin
  · rw [if_neg howner] at h
    cases h
    exact ⟨Grows.refl hs, fun a ha => absurd ha howner⟩

/-- **Visit.** A successful visit adds the entry after all that it needs. -/
theorem visit_visits (hsel : Distinct selected) (fuel : Nat) : Visits selected (visit selected fuel) := by
  induction fuel with
  | zero =>
    intro e s t _ _ h
    cases h
  | succ fuel ih =>
    rintro e ⟨ordered, visiting⟩ t he hs h
    unfold visit at h
    split at h
    · next hin =>
      cases h
      exact ⟨Grows.refl hs, hin⟩
    · next hnot =>
      split at h
      · cases h
      · next hfresh =>
        obtain ⟨s₁, h₁, h⟩ := ExceptT.bind_some_ok h
        obtain ⟨s₂, h₂, h⟩ := ExceptT.bind_some_ok h
        cases h
        have hs₀ : Ordered selected (ordered, visiting ++ [e.id]).1 := hs
        obtain ⟨howner, hownerIn⟩ := visitOwner_grows ih hs₀ h₁
        obtain ⟨hdeps, hdepsIn⟩ := visitEach_grows ih e.id howner.ordered h₂
        have hneeds : ∀ r, Needs selected e r → ∃ r', r' = e ∧ Relation.ReflTransGen (Needs selected) r' r :=
          fun r hr => ⟨e, rfl, Relation.ReflTransGen.single hr⟩
        have hgrow : Grows selected (· = e) (ordered, visiting ++ [e.id]) s₂ := by
          refine Grows.trans (howner.mono fun r hr => ?_) (hdeps.mono fun r hr => ?_)
          · exact hneeds r ⟨hr.1, Or.inr hr.2⟩
          · exact hneeds r ⟨hr.1, Or.inl hr.2⟩
        obtain ⟨new, hnew, hreach⟩ := hgrow.grown
        have hready : Ready selected s₂.1 e := by
          refine ⟨fun id hid => ?_, fun a ha => ?_⟩
          · obtain ⟨a, ha, -⟩ := hdepsIn id hid
            exact ⟨a, findId_some ha⟩
          · obtain ⟨hmem, hdep | ⟨hid, hne⟩⟩ := ha
            · obtain ⟨b, hb, hin⟩ := hdepsIn a.id hdep
              rw [findId_of_mem hsel hmem] at hb
              cases hb
              exact hin
            · exact hdeps.kept (hownerIn a hne (hid ▸ findId_of_mem hsel hmem))
        -- the entry itself was not pushed meanwhile: it was being visited
        have hid : e.id ∉ s₂.1.map Entry.id := by
          intro hid
          obtain ⟨x, hx, hxid⟩ := List.mem_map.mp hid
          rw [hnew] at hx
          rcases List.mem_append.mp hx with hx | hx
          · exact hnot (hsel.eq (hs.subset x hx) he hxid ▸ hx)
          · exact (hreach x hx).1 (by simp [hxid])
        refine ⟨⟨?_, hgrow.ordered.snoc hid he hready, new ++ [e], ?_, ?_⟩, by simp⟩
        · show s₂.2.filter _ = visiting
          rw [hgrow.visiting, List.filter_append]
          have hkeep : visiting.filter (fun id => decide (id ≠ e.id)) = visiting := by
            rw [List.filter_eq_self]
            intro id hid
            have hne : id ≠ e.id := fun heq => hfresh (heq ▸ hid)
            simpa using hne
          rw [hkeep]
          simp
        · rw [hnew, List.append_assoc]
        · intro x hx
          rcases List.mem_append.mp hx with hx | hx
          · obtain ⟨hx, hr⟩ := hreach x hx
            exact ⟨fun h => hx (List.mem_append_left _ h), hr⟩
          · rw [List.mem_singleton.mp hx]
            exact ⟨hfresh, e, rfl, Relation.ReflTransGen.refl⟩

/-! ## Fuel -/

/-- The selected entries that are not being visited. -/
def left (selected : List Entry) (visiting : List Text) : Nat :=
  (selected.filter fun e => e.id ∉ visiting).length

theorem left_lt {e : Entry} {visiting : List Text} (he : e ∈ selected) (hfresh : e.id ∉ visiting) :
    left selected (visiting ++ [e.id]) < left selected visiting := by
  unfold left
  have hsub : selected.filter (fun x => x.id ∉ visiting ++ [e.id]) =
      (selected.filter fun x => x.id ∉ visiting).filter fun x => x.id ≠ e.id := by
    rw [List.filter_filter]
    congr 1
    funext x
    simp [not_or, Bool.and_comm]
  rw [hsub]
  apply List.length_filter_lt_length_iff_exists.mpr
  exact ⟨e, by simp [he, hfresh], by simp⟩

theorem visitEach_isSome {go : Entry → Visiting → Visit Visiting} (hgo : Visits selected go) (id : Text)
    {v : List Text} (hsome : ∀ e s, e ∈ selected → Ordered selected s.1 → s.2 = v → (go e s).run.isSome)
    {deps : List Text} {s : Visiting} (hs : Ordered selected s.1) (hv : s.2 = v) :
    (visitEach go selected id deps s).run.isSome := by
  induction deps generalizing s with
  | nil => rfl
  | cons dep deps ih =>
    unfold visitEach
    cases hfind : findId selected dep with
    | none => rfl
    | some required =>
      obtain ⟨hmem, -⟩ := findId_some hfind
      apply ExceptT.bind_isSome (hsome required s hmem hs hv)
      intro t ht
      obtain ⟨hgrow, -⟩ := hgo required s t hmem hs ht
      exact ih hgrow.ordered (hgrow.visiting.trans hv)

/-- A visit is defined with more fuel than entries that are not being visited. -/
theorem visit_isSome (hsel : Distinct selected) {fuel : Nat} {e : Entry} {s : Visiting} (he : e ∈ selected)
    (hs : Ordered selected s.1) (hfuel : left selected s.2 < fuel) :
    (visit selected fuel e s).run.isSome := by
  induction fuel generalizing e s with
  | zero => omega
  | succ fuel ih =>
    obtain ⟨ordered, visiting⟩ := s
    dsimp only at hs hfuel
    have hvisits := visit_visits hsel fuel
    unfold visit
    split
    · rfl
    · split
      · rfl
      · next hfresh =>
        have hless := left_lt he hfresh
        have hsome : ∀ x t, x ∈ selected → Ordered selected t.1 → t.2 = visiting ++ [e.id] →
            (visit selected fuel x t).run.isSome := by
          intro x t hx ht hv
          apply ih hx ht
          rw [hv]
          omega
        apply ExceptT.bind_isSome
        · unfold visitOwner
          split
          · next application happ =>
            split at happ
            · exact hsome application _ (findId_some happ).1 hs rfl
            · cases happ
          · rfl
        · intro s₁ h₁
          have hs₀ : Ordered selected (ordered, visiting ++ [e.id]).1 := hs
          obtain ⟨hgrow, -⟩ := visitOwner_grows hvisits hs₀ h₁
          apply ExceptT.bind_isSome (visitEach_isSome hvisits e.id hsome hgrow.ordered hgrow.visiting)
          intro s₂ _
          rfl

/-! ## All visits -/

theorem visitAll_grows (hsel : Distinct selected) {fuel : Nat} {l : List Entry} {s t : Visiting}
    (hl : ∀ e ∈ l, e ∈ selected) (hs : Ordered selected s.1)
    (h : (l.foldlM (fun s e => visit selected fuel e s) s).run = some (.ok t)) :
    Grows selected (· ∈ l) s t ∧ ∀ e ∈ l, e ∈ t.1 := by
  induction l generalizing s with
  | nil =>
    cases h
    exact ⟨Grows.refl hs, by simp⟩
  | cons e l ih =>
    rw [List.foldlM_cons] at h
    obtain ⟨u, hu, h⟩ := ExceptT.bind_some_ok h
    obtain ⟨hgrow, hin⟩ := visit_visits hsel fuel e s u (hl e (by simp)) hs hu
    obtain ⟨hrest, hall⟩ := ih (fun x hx => hl x (List.mem_cons_of_mem _ hx)) hgrow.ordered h
    refine ⟨Grows.trans (hgrow.mono ?_) (hrest.mono ?_), ?_⟩
    · rintro r rfl
      exact ⟨r, by simp, Relation.ReflTransGen.refl⟩
    · intro r hr
      exact ⟨r, List.mem_cons_of_mem _ hr, Relation.ReflTransGen.refl⟩
    · intro x hx
      rcases List.mem_cons.mp hx with rfl | hx
      · exact hrest.kept hin
      · exact hall x hx

theorem visitAll_isSome (hsel : Distinct selected) {fuel : Nat} {l : List Entry} {s : Visiting}
    (hl : ∀ e ∈ l, e ∈ selected) (hs : Ordered selected s.1) (hfuel : left selected s.2 < fuel) :
    (l.foldlM (fun s e => visit selected fuel e s) s).run.isSome := by
  induction l generalizing s with
  | nil => rfl
  | cons e l ih =>
    rw [List.foldlM_cons]
    apply ExceptT.bind_isSome (visit_isSome hsel (hl e (by simp)) hs hfuel)
    intro t ht
    obtain ⟨hgrow, -⟩ := visit_visits hsel fuel e s t (hl e (by simp)) hs ht
    apply ih (fun x hx => hl x (List.mem_cons_of_mem _ hx)) hgrow.ordered
    rw [hgrow.visiting]
    exact hfuel

theorem mem_sorted {e : Entry} : e ∈ sorted selected ↔ e ∈ selected := List.mem_insertionSort _

theorem executionOrder_le {e : Entry} (h : e.group ≠ credentialsGroup) : executionOrder e ≤ 5 := by
  unfold executionOrder handlerOrder
  rw [if_neg h]
  split
  · omega
  split
  · omega
  split
  · omega
  split
  · omega
  split <;> omega

theorem executionOrder_cred {e : Entry} (h : e.group = credentialsGroup) : executionOrder e = 6 := by
  unfold executionOrder
  rw [if_pos h]

/-- Credentials come last. -/
theorem split_sorted {l : List Entry} (h : l.Pairwise fun a b => executionOrder a ≤ executionOrder b) :
    ∃ others creds, l = others ++ creds ∧ (∀ e ∈ others, e.group ≠ credentialsGroup) ∧
      ∀ e ∈ creds, e.group = credentialsGroup := by
  induction l with
  | nil => exact ⟨[], [], rfl, by simp, by simp⟩
  | cons x l ih =>
    obtain ⟨hx, hl⟩ := List.pairwise_cons.mp h
    by_cases hcred : x.group = credentialsGroup
    · refine ⟨[], x :: l, rfl, by simp, ?_⟩
      intro e he
      rcases List.mem_cons.mp he with rfl | he
      · exact hcred
      · by_contra hne
        have hle := hx e he
        rw [executionOrder_cred hcred] at hle
        have := executionOrder_le hne
        omega
    · obtain ⟨others, creds, rfl, hothers, hcreds⟩ := ih hl
      refine ⟨x :: others, creds, rfl, ?_, hcreds⟩
      intro e he
      rcases List.mem_cons.mp he with rfl | he
      · exact hcred
      · exact hothers e he

theorem sorted_pairwise (selected : List Entry) :
    (sorted selected).Pairwise fun a b => executionOrder a ≤ executionOrder b := by
  have htotal : Std.Total fun a b : Entry => executionOrder a ≤ executionOrder b :=
    ⟨fun a b => le_total (executionOrder a) (executionOrder b)⟩
  have htrans : IsTrans Entry fun a b => executionOrder a ≤ executionOrder b :=
    ⟨fun _ _ _ => le_trans⟩
  exact List.pairwise_insertionSort _ selected

end Visit

/-- The visits order the selection; a credential that stands before another kind
of entry is needed by one. -/
structure Linear (selected l : List Entry) : Prop where
  ordered : Ordered selected l
  all : ∀ e ∈ selected, e ∈ l
  creds : ∀ c n, [c, n] <+ l → c.group = credentialsGroup → n.group ≠ credentialsGroup →
    ∃ m ∈ selected, m.group ≠ credentialsGroup ∧ Relation.TransGen (Needs selected) m c

theorem orderedOf_linear {selected : List Entry} (hsel : Distinct selected) {fuel : Nat} {t : Visiting}
    (h : (orderedOf selected fuel).run = some (.ok t)) : Linear selected t.1 := by
  unfold orderedOf at h
  obtain ⟨others, creds, hsplit, hothers, hcreds⟩ := split_sorted (sorted_pairwise selected)
  have hmem : ∀ e ∈ others ++ creds, e ∈ selected := fun e he => mem_sorted.1 (hsplit ▸ he)
  rw [hsplit, List.foldlM_append] at h
  obtain ⟨u, hu, h⟩ := ExceptT.bind_some_ok h
  obtain ⟨hfirst, hfirstAll⟩ := visitAll_grows hsel (fun e he => hmem e (List.mem_append_left _ he))
    (Ordered.nil selected) hu
  obtain ⟨hsecond, hsecondAll⟩ := visitAll_grows hsel (fun e he => hmem e (List.mem_append_right _ he))
    hfirst.ordered h
  have hall : ∀ e ∈ selected, e ∈ t.1 := by
    intro e he
    have he : e ∈ others ++ creds := hsplit ▸ mem_sorted.2 he
    rcases List.mem_append.mp he with he | he
    · exact hsecond.kept (hfirstAll e he)
    · exact hsecondAll e he
  refine ⟨hsecond.ordered, hall, fun c n hcn hc hn => ?_⟩
  obtain ⟨new, hnew, -⟩ := hsecond.grown
  obtain ⟨first, hfirstNew, hreach⟩ := hfirst.grown
  -- the other entries are all there before the credentials get their turn
  have hnfirst : n ∈ u.1 := by
    have hnsel := hsecond.ordered.subset n (hcn.subset (by simp))
    have hn' : n ∈ others ++ creds := hsplit ▸ mem_sorted.2 hnsel
    rcases List.mem_append.mp hn' with hn' | hn'
    · exact hfirstAll n hn'
    · exact absurd (hcreds n hn') hn
  have hdistinct := hsecond.ordered.distinct
  have hlater : n ∉ new := by
    intro hlater
    unfold Distinct at hdistinct
    rw [hnew, List.map_append, List.nodup_append] at hdistinct
    exact hdistinct.2.2 n.id (List.mem_map_of_mem hnfirst) n.id (List.mem_map_of_mem hlater) rfl
  have hcfirst : c ∈ u.1 := by
    rw [hnew] at hcn
    rcases Grouping.before_append hcn with hcn | ⟨hc, hn⟩ | hcn
    · exact hcn.subset (by simp)
    · exact absurd hn hlater
    · exact absurd (hcn.subset (by simp)) hlater
  rw [hfirstNew] at hcfirst
  obtain ⟨-, m, hm, hmc⟩ := hreach c (by simpa using hcfirst)
  refine ⟨m, hmem m (List.mem_append_left _ hm), hothers m hm, ?_⟩
  rcases Relation.reflTransGen_iff_eq_or_transGen.mp hmc with rfl | hmc
  · exact absurd hc (hothers c hm)
  · exact hmc

/-! ## Cycles -/

theorem Ordered.nodup {selected l : List Entry} (h : Ordered selected l) : l.Nodup :=
  List.Nodup.of_map _ h.distinct

/-- What an entry needs stands before it. -/
theorem Ordered.split {selected l : List Entry} (h : Ordered selected l) {e a : Entry} (he : e ∈ l)
    (hn : Needs selected e a) : ∃ pre post, l = pre ++ e :: post ∧ a ∈ pre ∧ e ∉ pre := by
  obtain ⟨pre, post, rfl⟩ := List.append_of_mem he
  refine ⟨pre, post, rfl, (h.ready pre e post rfl).needs a hn, fun hin => ?_⟩
  have := h.nodup
  rw [List.nodup_append] at this
  exact this.2.2 e hin e (by simp) rfl

theorem Linear.idxOf_lt {selected l : List Entry} (h : Linear selected l) {e a : Entry} (he : e ∈ selected)
    (hn : Relation.TransGen (Needs selected) e a) : l.idxOf a < l.idxOf e := by
  have hstep : ∀ e a, e ∈ selected → Needs selected e a → l.idxOf a < l.idxOf e := by
    intro e a he hn
    obtain ⟨pre, post, rfl, ha, hpre⟩ := h.ordered.split (h.all e he) hn
    rw [List.idxOf_append_of_mem ha, List.idxOf_append_of_notMem hpre]
    have := List.idxOf_lt_length_of_mem ha
    omega
  induction hn with
  | single hn => exact hstep e _ he hn
  | @tail b c hb hn ih =>
    have hb' : b ∈ selected := by
      cases hb with
      | single hb => exact hb.1
      | tail _ hb => exact hb.1
    exact (hstep b c hb' hn).trans ih

/-- A selection that was ordered has no cycle and no missing dependency. -/
theorem Linear.sound {selected l : List Entry} (h : Linear selected l) :
    (∀ e ∈ selected, ∀ id ∈ e.dependsOn, ∃ a ∈ selected, a.id = id) ∧
      ∀ e ∈ selected, ¬Relation.TransGen (Needs selected) e e := by
  refine ⟨fun e he id hid => ?_, fun e he hcycle => ?_⟩
  · obtain ⟨pre, post, hl⟩ := List.append_of_mem (h.all e he)
    exact (h.ordered.ready pre e post hl).found id hid
  · exact absurd (h.idxOf_lt he hcycle) (lt_irrefl _)

/-! ## The selection -/

theorem mem_put {x e : Entry} {l : List Entry} (h : x ∈ put e l) : x = e ∨ x ∈ l := by
  induction l with
  | nil =>
    rw [put, List.mem_singleton] at h
    exact Or.inl h
  | cons known rest ih =>
    unfold put at h
    split at h
    · rcases List.mem_cons.mp h with rfl | h
      · exact Or.inl rfl
      · exact Or.inr (List.mem_cons_of_mem _ h)
    · rcases List.mem_cons.mp h with rfl | h
      · exact Or.inr (by simp)
      · rcases ih h with h | h
        · exact Or.inl h
        · exact Or.inr (List.mem_cons_of_mem _ h)

theorem ids_put (e : Entry) (l : List Entry) :
    (put e l).map Entry.id = if e.id ∈ l.map Entry.id then l.map Entry.id else l.map Entry.id ++ [e.id] := by
  induction l with
  | nil => rfl
  | cons known rest ih =>
    unfold put
    by_cases h : known.id = e.id
    · simp [h]
    · rw [if_neg h, List.map_cons, ih]
      have h' : e.id ≠ known.id := fun he => h he.symm
      simp only [List.map_cons, List.mem_cons, h', false_or]
      split <;> rfl

/-- The entries put one after the other: one for each ID, all of them given. -/
theorem foldl_put (l base : List Entry) (hbase : Distinct base) :
    Distinct (l.foldl (fun l e => put e l) base) ∧
      (∀ x ∈ l.foldl (fun l e => put e l) base, x ∈ base ∨ x ∈ l) ∧
      ∀ id, id ∈ (l.foldl (fun l e => put e l) base).map Entry.id ↔
        id ∈ base.map Entry.id ∨ id ∈ l.map Entry.id := by
  induction l generalizing base with
  | nil => exact ⟨hbase, fun x hx => Or.inl hx, by simp⟩
  | cons e l ih =>
    have hput : Distinct (put e base) := by
      unfold Distinct
      rw [ids_put]
      split
      · exact hbase
      · next hnot =>
        rw [List.nodup_append]
        refine ⟨hbase, by simp, ?_⟩
        rintro a ha b hb rfl
        exact hnot (List.mem_singleton.mp hb ▸ ha)
    obtain ⟨hdist, hfrom, hids⟩ := ih (put e base) hput
    refine ⟨hdist, fun x hx => ?_, fun id => ?_⟩
    · rcases hfrom x hx with hx | hx
      · rcases mem_put hx with rfl | hx
        · exact Or.inr (by simp)
        · exact Or.inl hx
      · exact Or.inr (List.mem_cons_of_mem _ hx)
    · rw [List.foldl_cons, hids, ids_put, List.map_cons, List.mem_cons]
      split
      · next hin =>
        constructor
        · rintro (h | h)
          · exact Or.inl h
          · exact Or.inr (Or.inr h)
        · rintro (h | rfl | h)
          · exact Or.inl h
          · exact Or.inl hin
          · exact Or.inr h
      · rw [List.mem_append, List.mem_singleton, or_assoc]

theorem selectedOf_distinct (l : List Entry) : Distinct (selectedOf l) := (foldl_put l [] List.nodup_nil).1

theorem mem_selectedOf {x : Entry} {l : List Entry} (h : x ∈ selectedOf l) : x ∈ l := by
  rcases (foldl_put l [] List.nodup_nil).2.1 x h with h | h
  · cases h
  · exact h

theorem ids_selectedOf (l : List Entry) (id : Text) :
    id ∈ (selectedOf l).map Entry.id ↔ id ∈ l.map Entry.id := by
  rw [selectedOf, (foldl_put l [] List.nodup_nil).2.2 id]
  simp

theorem expandConfigEntries_eq (entries : List Entry) :
    expandConfigEntries entries = selectedOf (entries.flatMap fun e => e :: applicationChildren e) := by
  unfold expandConfigEntries selectedOf
  rw [List.foldl_flatMap]
  rfl

/-- The selection a plan is made for. -/
def selection (entries : List Entry) (includeConfigs : Bool) : List Entry :=
  selectedOf (if includeConfigs then expandConfigEntries entries else entries)

/-- A selected entry or, with `include_configs`, a generated child of a selected
application. -/
def Chosen (entries : List Entry) (includeConfigs : Bool) (e : Entry) : Prop :=
  e ∈ entries ∨ includeConfigs = true ∧ ∃ a ∈ entries, e ∈ applicationChildren a

theorem mem_flat {entries : List Entry} {e : Entry} :
    (e ∈ entries.flatMap fun e => e :: applicationChildren e) ↔ Chosen entries true e := by
  unfold Chosen
  rw [List.mem_flatMap]
  constructor
  · rintro ⟨a, ha, he⟩
    rcases List.mem_cons.mp he with rfl | he
    · exact Or.inl ha
    · exact Or.inr ⟨rfl, a, ha, he⟩
  · rintro (he | ⟨-, a, ha, he⟩)
    · exact ⟨e, he, by simp⟩
    · exact ⟨a, ha, List.mem_cons_of_mem _ he⟩

theorem mem_selection {entries : List Entry} {includeConfigs : Bool} {e : Entry}
    (h : e ∈ selection entries includeConfigs) : Chosen entries includeConfigs e := by
  unfold selection at h
  cases includeConfigs with
  | false => exact Or.inl (mem_selectedOf h)
  | true =>
    have h := mem_selectedOf h
    rw [if_pos rfl, expandConfigEntries_eq] at h
    exact mem_flat.1 (mem_selectedOf h)

theorem selection_ids {entries : List Entry} {includeConfigs : Bool} {e : Entry}
    (h : Chosen entries includeConfigs e) : ∃ x ∈ selection entries includeConfigs, x.id = e.id := by
  have hid : e.id ∈ (selection entries includeConfigs).map Entry.id := by
    unfold selection
    rw [ids_selectedOf]
    cases includeConfigs with
    | false =>
      rcases h with h | ⟨h, -⟩
      · exact List.mem_map_of_mem h
      · cases h
    | true =>
      rw [if_pos rfl, expandConfigEntries_eq, ids_selectedOf]
      exact List.mem_map_of_mem (mem_flat.2 h)
  obtain ⟨x, hx, hxid⟩ := List.mem_map.mp hid
  exact ⟨x, hx, hxid⟩

end HomeStack.Setup
