import HomeStack.DeployPlan

/-! What a plan without problems says. The turns of the loop that found nothing are described once, by
`Accepted`; numbers, addresses, storages and names follow by induction over them. -/

namespace HomeStack.Deploy

open ServiceInstance (Instance)

/-! ## Names -/

theorem numbered_injective (name : Text) : Function.Injective (numbered name) := by
  intro a b h
  have hdigits : Text.ofNat a = Text.ofNat b := (List.cons.inj (List.append_cancel_left h)).2
  exact Text.ofNat_inj hdigits

/-- Of more numbered names than are taken, one is not: a service of several instances gets new names. -/
theorem hostname_not_mem {name : Text} {taken : List Text} {total : Nat} (h : total ≠ 1) :
    hostname name taken total ∉ taken := by
  set candidates := (List.range (taken.length + 1)).map fun n => numbered name (n + 1) with hcandidates
  have hnodup : candidates.Nodup :=
    List.nodup_range.map fun a b hab => Nat.succ.inj (numbered_injective name hab)
  have hfound : ∃ c, candidates.find? (fun c => !taken.contains c) = some c := by
    by_contra hnone
    have hall := List.find?_eq_none.mp (Option.eq_none_iff_forall_ne_some.mpr fun c hc => hnone ⟨c, hc⟩)
    have hsubset : candidates ⊆ taken := fun c hc => by simpa using hall c hc
    have hlength := (hnodup.subperm hsubset).length_le
    simp [hcandidates] at hlength
  obtain ⟨c, hc⟩ := hfound
  have hfree : c ∉ taken := by simpa using List.find?_some hc
  rw [hostname, if_neg h, ← hcandidates, hc]
  exact hfree

/-- The names that a row of containers gets: a resumed one keeps the name it carries, a new one gets the first
name that is not taken. -/
def assigned (name : Text) (total : Nat) : List Text → List (Option Text) → List Text
  | _, [] => []
  | taken, carried :: rest =>
    carried.getD (hostname name taken total) ::
      assigned name total (carried.getD (hostname name taken total) :: taken) rest

/-- No resumed container carries a name that was given before it. -/
def NamesApart (name : Text) (total : Nat) (taken : List Text) (carried : List (Option Text)) : Prop :=
  ∀ front kept rest, carried = front ++ some kept :: rest → kept ∉ assigned name total taken front

theorem assigned_nodup_from {name : Text} {total : Nat} (htotal : total ≠ 1) (carried : List (Option Text))
    {taken given : List Text} (hgiven : given.Nodup) (hsubset : given ⊆ taken) :
    (given ++ assigned name total taken carried).Nodup ↔
      ∀ front kept rest, carried = front ++ some kept :: rest →
        kept ∉ given ++ assigned name total taken front := by
  induction carried generalizing taken given with
  | nil => simpa [assigned] using hgiven
  | cons c carried ih =>
    set n := c.getD (hostname name taken total) with hn
    have hsplit : given ++ assigned name total taken (c :: carried) =
        (given ++ [n]) ++ assigned name total (n :: taken) carried := by
      simp [assigned, ← hn]
    have hsubset' : given ++ [n] ⊆ n :: taken := by
      intro x hx
      rcases List.mem_append.mp hx with hx | hx
      · exact List.mem_cons_of_mem _ (hsubset hx)
      · exact List.mem_cons.mpr (.inl (List.mem_singleton.mp hx))
    rw [hsplit]
    constructor
    · intro hnodup front kept rest hcarried
      have hgivenN : (given ++ [n]).Nodup := hnodup.of_append_left
      cases front with
      | nil =>
        obtain ⟨rfl, rfl⟩ := List.cons.inj hcarried
        have hkept : kept ∉ given := fun hk => (List.nodup_append.mp hgivenN).2.2 kept hk n (by simp) hn.symm
        simpa [assigned] using hkept
      | cons c' front =>
        obtain ⟨rfl, rfl⟩ := List.cons.inj hcarried
        have := (ih hgivenN hsubset').mp hnodup front kept rest rfl
        simpa [assigned, ← hn] using this
    · intro hapart
      have hnew : n ∉ given := by
        cases c with
        | none => exact fun hmem => hostname_not_mem htotal (hsubset hmem)
        | some kept =>
          have hkept : kept ∉ given := by simpa [assigned] using hapart [] kept carried rfl
          rw [hn]
          exact hkept
      have hgivenN : (given ++ [n]).Nodup := by
        rw [List.nodup_append]
        refine ⟨hgiven, by simp, fun x hx y hy hxy => hnew ?_⟩
        rw [← List.mem_singleton.mp hy, ← hxy]
        exact hx
      refine (ih hgivenN hsubset').mpr fun front kept rest hcarried => ?_
      have := hapart (c :: front) kept rest (by rw [hcarried]; rfl)
      simpa [assigned, ← hn] using this

theorem length_assigned {name : Text} {total : Nat} (taken : List Text) (carried : List (Option Text)) :
    (assigned name total taken carried).length = carried.length := by
  induction carried generalizing taken with
  | nil => rfl
  | cons c carried ih => simp [assigned, ih]

/-- New names are apart from all others, so it is the resumed containers that decide. -/
theorem assigned_nodup_iff {name : Text} {total : Nat} {taken : List Text} {carried : List (Option Text)}
    (h : total = 1 → carried.length ≤ 1) : (assigned name total taken carried).Nodup ↔
      NamesApart name total taken carried := by
  by_cases htotal : total = 1
  · have hlength := h htotal
    have hnodup : (assigned name total taken carried).Nodup := by
      have : (assigned name total taken carried).length = carried.length := length_assigned taken carried
      match hassigned : assigned name total taken carried with
      | [] => exact List.nodup_nil
      | [n] => exact List.nodup_singleton n
      | _ :: _ :: _ =>
        rw [hassigned] at this
        simp at this
        omega
    refine ⟨fun _ front kept rest hcarried => ?_, fun _ => hnodup⟩
    rw [hcarried, List.length_append, List.length_cons] at hlength
    obtain rfl : front = [] := List.eq_nil_of_length_eq_zero (by omega)
    simp [assigned]
  · have hfrom := @assigned_nodup_from name total htotal carried taken
      [] List.nodup_nil (List.nil_subset taken)
    simp only [List.nil_append] at hfrom
    exact hfrom

/-! ## One turn of the loop -/

section

variable (W : World) (config : DeployConfig) (source : Source) (cluster : Cluster) (choice : Choice)

/-- The name that the container behind a taken number carries. -/
def carriedName (pve : Pve) (pool node : Text) (ctid : Nat) : Option Text :=
  if free pve ctid = .ok false then do
    let found ← (container pve ctid).toOption
    let found ← found
    let cfg ← (pve (lxcPath node ctid "/config") []).toOption
    let t ← (ServiceInstance.parse ctid node pool cfg (found.status = "running")).toOption
    some t.hostname
  else none

/-- The name that is carried at a placement's turn. -/
def carried (item : ((Text × Text) × Text) × Nat) : Option Text :=
  (Text.parseNat (2 ^ 32) item.1.2).bind (carriedName (W.pve (4 + item.2)) config.pool item.1.1.1)

/-- The address of a number in the network, neither the gateway's nor another guest's. -/
def Addressed (t : Terms) (i : NewInstance) : Prop :=
  ∃ ip, address config i.ctid = some ip ∧ i.address = ip.toText ∧ ip ≠ config.gateway ∧
    checkAddress t.allocated ip i.ctid = .ok ()

/-- The number was free, or its container can be resumed. -/
def Claimable (t : Terms) (place : Nat) (i : NewInstance) : Prop :=
  i.resume = none ∧ IsFree (W.pve (4 + place)) i.ctid ∨
    ∃ r, i.resume = some r ∧ Unfinished (W.pve (4 + place)) source
      (source.image choice.version) t.digest config.pool i r

/-- What a turn of the loop does that finds no problem. -/
structure Accepted (t : Terms) (s : Progress) (item : ((Text × Text) × Text) × Nat) (i : NewInstance)
    (s' : Progress) : Prop where
  unseen : i.ctid ∉ s.seen
  placement : (i.node, i.rootStorage) = item.1.1
  home : i.homeStorage = i.rootStorage
  addressed : Addressed config t i
  claimable : Claimable W config source choice t item.2 i
  hostname : i.hostname = (carried W config item).getD (hostname (Text.trim choice.hostname) s.taken t.total)
  fits : ∃ bytes, cluster.available i.node i.rootStorage = some bytes ∧
    (i.resume = none → s.used (i.node, i.rootStorage) + wanted i ≤ bytes)
  seen : s'.seen = i.ctid :: s.seen
  used : ∀ key, s'.used key = if key = (i.node, i.rootStorage) then s.used key + wanted i else s.used key
  taken : s'.taken = i.hostname :: s.taken
  instances : s'.instances = s.instances ++ [i]

variable {W config source cluster choice}

theorem problemIf_eq_nil {c : Prop} [Decidable c] {problem : Text} : problemIf c problem = [] ↔ ¬ c := by
  unfold problemIf
  split <;> simp [*]

theorem placeable_ok {t : Terms} {node : Text} {ctid : Nat} {ip : Ipv4}
    (h : placeable config cluster t node ctid = .ok ip) :
    address config ctid = some ip ∧ ip ≠ config.gateway ∧ checkAddress t.allocated ip ctid = .ok () := by
  unfold placeable at h
  split at h
  · cases h
  · split at h
    · cases h
    · rename_i found hfound
      split at h
      · cases h
      · rename_i hgateway
        obtain ⟨u, hcheck, h⟩ := Except.bind_ok h
        cases h
        exact ⟨hfound, hgateway, hcheck⟩

/-- A claim without problem: of a free number, or of a container that is resumed under its own name. -/
theorem claimed_silent {pve : Pve} {t : Terms} {i : NewInstance}
    (h : (claimed config source choice pve t i).2 = []) :
    (free pve i.ctid = .ok true ∧ (claimed config source choice pve t i).1 = i) ∨
      ∃ name r, free pve i.ctid = .ok false ∧
        resumable pve source (source.image choice.version) t.digest config.pool i = .ok (name, r) ∧
        (claimed config source choice pve t i).1 = { i with hostname := name, resume := some r } := by
  unfold claimed at h ⊢
  cases hfree : free pve i.ctid with
  | error e =>
    rw [hfree] at h
    cases h
  | ok isFree =>
    rw [hfree] at h
    cases isFree with
    | true => exact .inl ⟨rfl, rfl⟩
    | false =>
      simp only at h
      split at h
      · rename_i hmarker
        cases hresumable : resumable pve source (source.image choice.version) t.digest config.pool i with
        | error e =>
          rw [hresumable] at h
          cases h
        | ok found => exact .inr ⟨found.1, found.2, rfl, rfl, by simp only [if_pos hmarker]⟩
      · cases h

theorem carried_free {node storage typed : Text} {place ctid : Nat}
    (htyped : Text.parseNat (2 ^ 32) typed = some ctid) (hfree : free (W.pve (4 + place)) ctid = .ok true) :
    carried W config (((node, storage), typed), place) = none := by
  rw [carried, htyped, Option.bind_some, carriedName, hfree]
  rfl

theorem carried_resumed {node storage typed : Text} {place ctid : Nat} {found : Container} {cfg : Json}
    {t : Instance} (htyped : Text.parseNat (2 ^ 32) typed = some ctid)
    (hfree : free (W.pve (4 + place)) ctid = .ok false)
    (hfound : container (W.pve (4 + place)) ctid = .ok (some found))
    (hcfg : W.pve (4 + place) (lxcPath node ctid "/config") [] = .ok cfg)
    (ht : ServiceInstance.parse ctid node config.pool cfg (found.status = "running") = .ok t) :
    carried W config (((node, storage), typed), place) = some t.hostname := by
  rw [carried, htyped, Option.bind_some, carriedName, if_pos hfree, hfound]
  simp only [Except.toOption, Option.bind_eq_bind, Option.bind_some, hcfg, ht]

theorem claimed_placed {pve : Pve} {t : Terms} {i : NewInstance} :
    (claimed config source choice pve t i).1.node = i.node ∧
      (claimed config source choice pve t i).1.rootStorage = i.rootStorage ∧
      (claimed config source choice pve t i).1.homeStorage = i.homeStorage ∧
      (claimed config source choice pve t i).1.ctid = i.ctid ∧
        (claimed config source choice pve t i).1.address = i.address := by
  unfold claimed
  split
  · exact ⟨rfl, rfl, rfl, rfl, rfl⟩
  · split
    · split <;> exact ⟨rfl, rfl, rfl, rfl, rfl⟩
    · exact ⟨rfl, rfl, rfl, rfl, rfl⟩
  · exact ⟨rfl, rfl, rfl, rfl, rfl⟩

/-- The claim of a turn: what is entered is free or resumed, and named accordingly. -/
theorem claimed_entered {t : Terms} {i : NewInstance} {typed : Text} {place : Nat} (storage : Text)
    (htyped : Text.parseNat (2 ^ 32) typed = some i.ctid) (hnew : i.resume = none)
    (h : (claimed config source choice (W.pve (4 + place)) t i).2 = []) (domain : Text) :
    Claimable W config source choice t place
      { (claimed config source choice (W.pve (4 + place)) t i).1 with fqdn := domain } ∧
      (claimed config source choice (W.pve (4 + place)) t i).1.hostname =
        (carried W config (((i.node, storage), typed), place)).getD i.hostname := by
  obtain ⟨hfree, hclaimed⟩ | ⟨name, r, hfree, hresumable, hclaimed⟩ := claimed_silent h
  · rw [hclaimed, carried_free htyped hfree]
    exact ⟨.inl ⟨hnew, free_true hfree⟩, rfl⟩
  · obtain ⟨hunfinished, found, cfg, current, hfound, hcfg, hcurrent, rfl⟩ := resumable_ok hresumable
    rw [hclaimed, carried_resumed htyped hfree hfound hcfg hcurrent]
    refine ⟨.inr ⟨r, rfl, ?_⟩, rfl⟩
    -- the conditions do not read the name, the record or the domain
    obtain ⟨hmarker, hlisted, hlxc, hvmid, hnode, hpool, hconfig, howner, hlock, hread, hplanned,
      hhome, hrest⟩ := hunfinished
    exact .intro hmarker hlisted hlxc hvmid hnode hpool hconfig howner hlock hread hplanned hhome hrest

theorem enter_silent {t : Terms} {s : Progress} {place : Nat} {node storage typed : Text} {ctid : Nat}
    {ip : Ipv4} {bytes : Nat} {seen : List Nat}
    (h : (enter W config source choice t s place node storage ctid ip bytes).problems = [])
    (htyped : Text.parseNat (2 ^ 32) typed = some ctid) (hip : address config ctid = some ip)
    (hgateway : ip ≠ config.gateway) (hcheck : checkAddress t.allocated ip ctid = .ok ())
    (hbytes : cluster.available node storage = some bytes) (hseen : s.seen = ctid :: seen)
    (hunseen : ctid ∉ seen) :
    s.problems = [] ∧ ∃ i, Accepted W config source cluster choice t { s with seen := seen }
      (((node, storage), typed), place) i
      (enter W config source choice t s place node storage ctid ip bytes) := by
  set made := claimed config source choice (W.pve (4 + place)) t
    (drafted source choice t s.taken node storage ctid ip) with hmade
  have hproblems : s.problems ++ (made.2 ++ spaceProblems s.used made.1 bytes ++
      bootstrapProblems W source made.1 ++
      (reviewed W s.sites place made.1).2 ++ numberedProblems source made.1) = [] := h
  simp only [List.append_eq_nil_iff] at hproblems
  obtain ⟨hs, ⟨⟨⟨hclaim, hspace⟩, -⟩, -⟩, -⟩ := hproblems
  obtain ⟨hnode, hstorage, hhome, hctid, haddress⟩ : made.1.node = node ∧ made.1.rootStorage = storage ∧
      made.1.homeStorage = storage ∧ made.1.ctid = ctid ∧ made.1.address = ip.toText := claimed_placed
  obtain ⟨hclaimable, hhostname⟩ := claimed_entered storage htyped rfl hclaim
    (made.1.hostname ++ "." ++ Text.trim choice.domain)
  have hfits : made.1.resume = none → s.used (made.1.node, made.1.rootStorage) + wanted made.1 ≤ bytes := by
    intro hresume
    have := problemIf_eq_nil.1 hspace
    simpa [hresume] using this
  refine ⟨hs, { made.1 with fqdn := made.1.hostname ++ "." ++ Text.trim choice.domain }, ?_⟩
  exact {
    unseen := by rw [← hctid] at hunseen; exact hunseen
    placement := Prod.ext hnode hstorage
    home := hhome.trans hstorage.symm
    addressed := by
      rw [← hctid] at hip hcheck
      exact ⟨ip, hip, haddress, hgateway, hcheck⟩
    claimable := hclaimable
    hostname := hhostname
    fits := ⟨bytes, by rw [← hnode, ← hstorage] at hbytes; exact hbytes, hfits⟩
    seen := by rw [← hctid] at hseen; exact hseen
    used := fun _ => rfl
    taken := rfl
    instances := rfl }

/-- A turn without problem enters one container. -/
theorem step_silent {t : Terms} {s : Progress} {item : ((Text × Text) × Text) × Nat}
    (h : (step W config source cluster choice t s item).problems = []) :
    s.problems = [] ∧ ∃ i, Accepted W config source cluster choice t s item i
      (step W config source cluster choice t s item) := by
  obtain ⟨⟨⟨node, storage⟩, typed⟩, place⟩ := item
  have hreport (s : Progress) (problem : Text) : (s.report [problem]).problems ≠ [] := by
    simp [Progress.report]
  unfold step at h ⊢
  simp only at h ⊢
  cases htyped : Text.parseNat (2 ^ 32) typed with
  | none =>
    rw [htyped] at h
    exact absurd h (hreport _ _)
  | some ctid =>
    rw [htyped] at h
    simp only at h ⊢
    split at h
    · exact absurd h (hreport _ _)
    · rename_i hseen
      rw [if_neg hseen]
      cases hplaceable : placeable config cluster t node ctid with
      | error e =>
        rw [hplaceable] at h
        exact absurd h (hreport _ _)
      | ok ip =>
        rw [hplaceable] at h
        simp only at h ⊢
        cases havailable : cluster.available node storage with
        | none =>
          rw [havailable] at h
          exact absurd h (hreport _ _)
        | some bytes =>
          rw [havailable] at h
          simp only at h ⊢
          obtain ⟨hip, hgateway, hcheck⟩ := placeable_ok hplaceable
          obtain ⟨hproblems, i, hi⟩ :=
            enter_silent h htyped hip hgateway hcheck havailable rfl (by simpa using hseen)
          rw [Progress.report, List.append_eq_nil_iff] at hproblems
          refine ⟨hproblems.1, i, ?_⟩
          exact { hi with }

/-! ## The whole loop -/

variable (W config source cluster choice) in
/-- Turns without problem, one container each. -/
inductive Turns (t : Terms) :
    Progress → List (((Text × Text) × Text) × Nat) → List NewInstance → Progress → Prop
  | nil (s : Progress) : Turns t s [] [] s
  | cons {s s' s'' : Progress} {item : ((Text × Text) × Text) × Nat}
      {items : List (((Text × Text) × Text) × Nat)}
      {i : NewInstance} {made : List NewInstance} :
      Accepted W config source cluster choice t s item i s' → Turns t s' items made s'' →
        Turns t s (item :: items) (i :: made) s''

theorem turns_of_silent {t : Terms} {items : List (((Text × Text) × Text) × Nat)} {s : Progress}
    (h : (items.foldl (step W config source cluster choice t) s).problems = []) :
    s.problems = [] ∧ ∃ made, Turns W config source cluster choice t s items made
      (items.foldl (step W config source cluster choice t) s) := by
  induction items generalizing s with
  | nil => exact ⟨h, [], .nil s⟩
  | cons item items ih =>
    obtain ⟨hstep, made, hmade⟩ := ih h
    obtain ⟨hs, i, hi⟩ := step_silent hstep
    exact ⟨hs, i :: made, .cons hi hmade⟩

/-- What a new container takes of a storage of a node, in bytes. -/
def taking (node storage : Text) (i : NewInstance) : Nat :=
  if i.resume = none ∧ i.node = node then
    ((if i.rootStorage = storage then i.rootMib else 0) + (if i.homeStorage = storage then i.homeMib
    else 0)) * 1024 * 1024
  else 0

theorem taking_eq {i : NewInstance} (h : i.homeStorage = i.rootStorage) (node storage : Text) :
    taking node storage i = if (node, storage) = (i.node, i.rootStorage) then wanted i else 0 := by
  unfold taking wanted
  rw [h]
  by_cases hnode : i.node = node
  · by_cases hstorage : i.rootStorage = storage
    · simp [hnode, hstorage, Option.isNone_iff_eq_none]
    · simp [hnode, hstorage, Ne.symm hstorage]
  · simp [hnode, Ne.symm hnode]

section

variable {t : Terms} {s s' : Progress} {items : List (((Text × Text) × Text) × Nat)} {made : List NewInstance}

theorem Turns.instances (h : Turns W config source cluster choice t s items made s') :
    s'.instances = s.instances ++ made := by
  induction h with
  | nil s => simp
  | cons hi _ ih => rw [ih, hi.instances, List.append_assoc, List.singleton_append]

theorem Turns.placements (h : Turns W config source cluster choice t s items made s') :
    made.map (fun i => (i.node, i.rootStorage)) = items.map fun item => item.1.1 := by
  induction h with
  | nil s => rfl
  | cons hi _ ih => rw [List.map_cons, List.map_cons, hi.placement, ih]

theorem Turns.addressed (h : Turns W config source cluster choice t s items made s') :
    ∀ i ∈ made, Addressed config t i := by
  induction h with
  | nil s => simp
  | cons hi _ ih => exact List.forall_mem_cons.mpr ⟨hi.addressed, ih⟩

theorem Turns.ctids (h : Turns W config source cluster choice t s items made s') :
    (made.map (·.ctid)).Nodup ∧ ∀ i ∈ made, i.ctid ∉ s.seen := by
  induction h with
  | nil s => simp
  | cons hi _ ih =>
    obtain ⟨hnodup, hunseen⟩ := ih
    rw [hi.seen] at hunseen
    refine ⟨List.nodup_cons.mpr ⟨fun hmem => ?_, hnodup⟩, ?_⟩
    · obtain ⟨j, hj, hctid⟩ := List.mem_map.mp hmem
      exact hunseen j hj (by simp [hctid])
    · exact List.forall_mem_cons.mpr ⟨hi.unseen, fun j hj hmem => hunseen j hj (List.mem_cons_of_mem _ hmem)⟩

theorem Turns.claimable {row : List ((Text × Text) × Text)} {n : Nat}
    (h : Turns W config source cluster choice t s (row.zipIdx n) made s') :
    ∀ x ∈ made.zipIdx n, Claimable W config source choice t x.2 x.1 := by
  induction row generalizing s made n with
  | nil =>
    cases h
    simp
  | cons a row ih =>
    cases h with
    | cons hi hrest =>
      rw [List.zipIdx_cons]
      exact List.forall_mem_cons.mpr ⟨hi.claimable, ih hrest⟩

theorem Turns.hostnames (h : Turns W config source cluster choice t s items made s') :
    made.map (·.hostname) = assigned (Text.trim choice.hostname) t.total s.taken
      (items.map (carried W config)) := by
  induction h with
  | nil s => rfl
  | cons hi _ ih => rw [List.map_cons, List.map_cons, assigned, ← hi.hostname, ih, hi.taken]

theorem Turns.fits (h : Turns W config source cluster choice t s items made s') {node storage : Text}
    {bytes : Nat} (hbytes : cluster.available node storage = some bytes)
    (hused : s.used (node, storage) ≤ bytes) :
    s.used (node, storage) + (made.map (taking node storage)).sum ≤ bytes := by
  induction h with
  | nil s => simpa using hused
  | cons hi _ ih =>
    rename_i s s' s'' item items i made _
    obtain ⟨bytes', havailable, hfits⟩ := hi.fits
    have hnext : s'.used (node, storage) = s.used (node, storage) + taking node storage i := by
      rw [hi.used, taking_eq hi.home]
      split <;> simp
    have hle : s'.used (node, storage) ≤ bytes := by
      rw [hnext, taking_eq hi.home]
      split
      · rename_i hkey
        obtain ⟨rfl, rfl⟩ := Prod.ext_iff.mp hkey
        obtain rfl : bytes = bytes' := Option.some.inj (hbytes.symm.trans havailable)
        cases hresume : i.resume with
        | none => exact hfits hresume
        | some r => simpa [wanted, hresume] using hused
      · simpa using hused
    have := ih hle
    rw [hnext] at this
    rw [List.map_cons, List.sum_cons]
    omega

end

/-! ## The plan -/

variable (W config source cluster choice)

/-- How many instances were asked for. -/
def requested : Option Nat :=
  match source.manifest.schema3 with
  | none => some choice.placements.length
  | some _ => (number choice.instanceCount "New instance count" 1 64).toOption

def digestOf : Text := ((resolvedOf W source cluster choice).1.map (·.digest)).getD []

/-- The containers of a plan are as many as asked for and in nobody's way. -/
structure ConflictFree (p : Plan) : Prop where
  count : requested source choice = some p.instances.length
  placed : p.instances.map (fun i => (i.node, i.rootStorage)) = (placements source choice).1
  ctids : (p.instances.map (·.ctid)).Nodup
  addressed : ∀ i ∈ p.instances, ∃ ip, address config i.ctid = some ip ∧
    i.address = ip.toText ∧ ip ≠ config.gateway ∧
    ∀ id, id ≠ i.ctid → ¬ ConfiguredOn (W.pve 3) id ip
  addresses : (p.instances.map (·.address)).Nodup
  claimable : ∀ x ∈ p.instances.zipIdx, x.1.resume = none ∧ IsFree (W.pve (4 + x.2)) x.1.ctid ∨
    ∃ r, x.1.resume = some r ∧
      Unfinished (W.pve (4 + x.2)) source (source.image choice.version)
        (digestOf W source cluster choice) config.pool x.1 r
  fits : ∀ node storage bytes, cluster.available node storage = some bytes →
    (p.instances.map (taking node storage)).sum ≤ bytes
  hostnames : (p.instances.map (·.hostname)).Nodup

/-- The ticked entries name a storage: all of them, or for schema 3, which goes round them, one. -/
def EntriesMeant : Prop :=
  match source.manifest.schema3 with
  | none => ∀ e ∈ choice.placements, ':' ∈ e
  | some _ => ∃ e ∈ choice.placements, ':' ∈ e

/-- No container that is resumed carries the name of one planned before it. -/
def ResumedApart : Prop :=
  ∀ ctids, ctidsOf W config source choice = .ok ctids →
    NamesApart (Text.trim choice.hostname) (totalOf source choice) (namesOf W).1
      ((items source choice ctids).map (carried W config))

variable {W config source cluster choice}

/-- The terms of the loop. -/
def terms (W : World) (source : Source) (cluster : Cluster) (choice : Choice) (sizes : Nat × Nat × Nat × Nat)
    (allocated : List (Ipv4 × Nat)) : Terms :=
  ⟨digestOf W source cluster choice, totalOf source choice, sizes.1, sizes.2.1,
    sizes.2.2.1, sizes.2.2.2, allocated⟩

theorem sizes_error {problems : List Text} (h : sizes source choice = .error problems) : problems ≠ [] := by
  rintro rfl
  unfold sizes at h
  simp only at h
  split at h
  · cases h
  · rename_i hnot
    have herrors := Except.error.inj h
    simp only [List.append_eq_nil_iff] at herrors
    obtain ⟨⟨⟨hcores, hmemory⟩, hroot⟩, hhome⟩ := herrors
    have hok {x : Except Text Nat} (hx : sizes.errors x = []) : ∃ n, x = .ok n := by
      cases x with
      | error e => cases hx
      | ok n => exact ⟨n, rfl⟩
    obtain ⟨cores, hcores⟩ := hok hcores
    obtain ⟨memory, hmemory⟩ := hok hmemory
    obtain ⟨root, hroot⟩ := hok hroot
    obtain ⟨home, hhome⟩ := hok hhome
    exact hnot cores memory root home hcores hmemory hroot hhome

theorem place_silent {p : Plan} {sizes : Nat × Nat × Nat × Nat} {ctids : List Text}
    {allocated : List (Ipv4 × Nat)}
    (h : (place W config source cluster choice p sizes ctids allocated).problems = [])
    (hdigest : (p.resolved.map (·.digest)).getD [] = digestOf W source cluster choice) :
    p.problems = [] ∧ ∃ s, Turns W config source cluster choice
      (terms W source cluster choice sizes allocated)
      ⟨[], [], fun _ => 0, (namesOf W).1, [], []⟩ (items source choice ctids)
      (place W config source cluster choice p sizes ctids allocated).instances s := by
  rw [terms, ← hdigest]
  obtain ⟨hloop, -⟩ := List.append_eq_nil_iff.mp h
  obtain ⟨hbefore, made, hmade⟩ := turns_of_silent hloop
  have hinstances : (place W config source cluster choice p sizes ctids allocated).instances = made :=
    hmade.instances
  simp only at hbefore
  rw [hbefore] at hmade
  rw [hinstances]
  exact ⟨hbefore, _, hmade⟩

/-- A plan without problems went through its loop without one. -/
theorem plan_silent (h : (plan W config source cluster choice).problems = []) :
    (placements source choice).2 = [] ∧ ∃ sizes ctids allocated s,
      ctidsOf W config source choice = .ok ctids ∧ ctids.length = (placements source choice).1.length ∧
      addresses (W.pve 3) = .ok allocated ∧
      Turns W config source cluster choice (terms W source cluster choice sizes allocated)
        ⟨[], [], fun _ => 0, (namesOf W).1, [], []⟩ (items source choice ctids)
          (plan W config source cluster choice).instances s := by
  have hreport (p : Plan) (problem : Text) : (p.report [problem]).problems ≠ [] := by simp [Plan.report]
  unfold plan at h ⊢
  simp only at h ⊢
  cases hsizes : sizes source choice with
  | error problems =>
    rw [hsizes] at h
    have hproblems : problems ≠ [] := sizes_error hsizes
    simp [Plan.report, hproblems] at h
  | ok sizes =>
    rw [hsizes] at h
    simp only at h ⊢
    cases hctids : ctidsOf W config source choice with
    | error e =>
      rw [hctids] at h
      exact absurd h (hreport _ _)
    | ok ctids =>
      rw [hctids] at h
      simp only at h ⊢
      cases hallocated : addresses (W.pve 3) with
      | error e =>
        rw [hallocated] at h
        exact absurd h (hreport _ _)
      | ok allocated =>
        rw [hallocated] at h
        simp only at h ⊢
        obtain ⟨hbefore, last, hlast⟩ := place_silent h rfl
        simp only [Plan.report, List.append_eq_nil_iff] at hbefore
        obtain ⟨⟨-, -, hplacements⟩, hcount, -⟩ := hbefore
        have hlength : ctids.length = (placements source choice).1.length := by
          have := problemIf_eq_nil.1 hcount
          omega
        exact ⟨hplacements, sizes, ctids, allocated, last, rfl, hlength, rfl, hlast⟩

theorem low_le_of_number_ok {text what : Text} {low high n : Nat} (h : number text what low high = .ok n) :
    low ≤ n := by
  unfold number at h
  split at h
  · rename_i m hm
    cases h
    obtain ⟨-, hrange⟩ := Option.filter_eq_some_iff.mp hm
    exact (by simpa using hrange : low ≤ n ∧ n ≤ high).1
  · cases h

theorem splitOnce_isSome {c : Char} {e : Text} : (Text.splitOnce [c] e).isSome ↔ c ∈ e := by
  constructor
  · intro h
    by_contra hmem
    rw [Text.splitOnce_none_of_not_mem [] e hmem] at h
    cases h
  · intro hmem
    obtain ⟨a, b, rfl⟩ := List.append_of_mem hmem
    exact Text.contains_append_of_contains a (c :: b) (Text.contains_self_append [c] b)

theorem selected_eq_nil_iff : selected choice = [] ↔ ∀ e ∈ choice.placements, ':' ∉ e := by
  rw [selected, List.filterMap_eq_nil_iff]
  refine forall₂_congr fun e _ => ?_
  rw [← splitOnce_isSome, Option.not_isSome_iff_eq_none]
  rfl

/-- There are as many placements as were asked for exactly if the entries name storages. -/
theorem requested_iff (h : (placements source choice).2 = []) :
    requested source choice = some (placements source choice).1.length ↔ EntriesMeant source choice := by
  unfold requested placements EntriesMeant at *
  cases hschema : source.manifest.schema3 with
  | none =>
    simp only [Option.some.injEq]
    rw [eq_comm, selected, List.filterMap_length_eq_length]
    exact forall₂_congr fun e _ => splitOnce_isSome
  | some contract =>
    simp only [hschema] at h ⊢
    cases hcount : number choice.instanceCount "New instance count" 1 64 with
    | error e =>
      rw [hcount] at h
      cases h
    | ok count =>
      have hpositive : 1 ≤ count := low_le_of_number_ok hcount
      by_cases hselected : selected choice = []
      · have hnone := selected_eq_nil_iff.1 hselected
        have hcount0 : count ≠ 0 := by omega
        simpa [hselected, Except.toOption, hcount0] using hnone
      · have hsome : ∃ e ∈ choice.placements, ':' ∈ e := by
          by_contra hnone
          exact hselected (selected_eq_nil_iff.2 fun e he hmem => hnone ⟨e, he, hmem⟩)
        simp [hselected, Except.toOption, hsome]

theorem length_items {ctids : List Text} (h : ctids.length = (placements source choice).1.length) :
    (items source choice ctids).length = (placements source choice).1.length := by
  simp [items, h]

theorem map_items {ctids : List Text} (h : ctids.length = (placements source choice).1.length) :
    ((items source choice ctids).map fun item => item.1.1) = (placements source choice).1 := by
  have hfst : (items source choice ctids).map Prod.fst = (placements source choice).1.zip ctids :=
    List.zipIdx_map_fst _ _
  have hmap : ((items source choice ctids).map fun item => item.1.1) =
      ((items source choice ctids).map Prod.fst).map Prod.fst := by
    rw [List.map_map]
    rfl
  rw [hmap, hfst]
  exact List.map_fst_zip (by omega)

/-- A service whose only instance is planned has one placement. -/
theorem items_le_one {ctids : List Text} (h : ctids.length = (placements source choice).1.length)
    (htotal : totalOf source choice = 1) : ((items source choice ctids).map
      (carried W config)).length ≤ 1 := by
  rw [List.length_map, length_items h]
  unfold totalOf at htotal
  split at htotal
  · omega
  · omega

/-- Different numbers have different addresses. -/
theorem addresses_nodup {t : Terms} {made : List NewInstance} (hctids : (made.map (·.ctid)).Nodup)
    (haddressed : ∀ i ∈ made, Addressed config t i) : (made.map (·.address)).Nodup := by
  rw [List.Nodup, List.pairwise_map] at hctids ⊢
  refine hctids.imp_of_mem fun {i j} hi hj hne haddress => hne ?_
  obtain ⟨ip, hip, hitext, -⟩ := haddressed i hi
  obtain ⟨jp, hjp, hjtext, -⟩ := haddressed j hj
  have htext : ip.toText = jp.toText := hitext.symm.trans (haddress.trans hjtext)
  have hparse := congrArg Ipv4.parse htext
  rw [Ipv4.parse_toText, Ipv4.parse_toText] at hparse
  obtain rfl := Option.some.inj hparse
  exact address_inj hip hjp

variable (W config source cluster choice) in
/-- A plan without problems is free of conflicts exactly if the ticked entries name storages and no resumed
container carries the name of one planned before it; everything else holds of every such plan. The numbers
that are picked are free of conflicts in the inventory they were picked from. -/
theorem plan_conflictFree_iff :
    ((plan W config source cluster choice).problems = [] →
      (ConflictFree W config source cluster choice (plan W config source cluster choice) ↔
        EntriesMeant source choice ∧ ResumedApart W config source choice)) ∧
    ∀ pve instances count ctids, automatic config pve instances count = .ok ctids →
      ctids.length = count ∧ Unallocated config pve ctids := by
  refine ⟨fun h => ?_, fun pve instances count ctids hctids => automatic_ok hctids⟩
  obtain ⟨hplacements, sizes, ctids, allocated, s, hctids, hlength, hallocated, hturns⟩ := plan_silent h
  set p := plan W config source cluster choice
  have hplaced : p.instances.map (fun i => (i.node, i.rootStorage)) = (placements source choice).1 := by
    rw [hturns.placements, map_items hlength]
  have hcount : p.instances.length = (placements source choice).1.length := by
    rw [← hplaced, List.length_map]
  have hnames : (p.instances.map (·.hostname)).Nodup ↔ ResumedApart W config source choice := by
    have hassigned : p.instances.map (·.hostname) = assigned (Text.trim choice.hostname)
        (totalOf source choice) (namesOf W).1
        ((items source choice ctids).map (carried W config)) := hturns.hostnames
    rw [hassigned, assigned_nodup_iff fun htotal => items_le_one hlength htotal]
    refine ⟨fun hapart ctids' hctids' => ?_, fun hapart => hapart ctids hctids⟩
    obtain rfl : ctids = ctids' := Except.ok.inj (hctids.symm.trans hctids')
    exact hapart
  constructor
  · intro hfree
    refine ⟨(requested_iff hplacements).mp ?_, hnames.mp hfree.hostnames⟩
    rw [← hcount]
    exact hfree.count
  · rintro ⟨hentries, hapart⟩
    exact {
      count := by rw [hcount]; exact (requested_iff hplacements).mpr hentries
      placed := hplaced
      ctids := hturns.ctids.1
      addressed := fun i hi => by
        obtain ⟨ip, hip, htext, hgateway, hcheck⟩ := hturns.addressed i hi
        exact ⟨ip, hip, htext, hgateway, fun id hid => checkAddress_ok hallocated hcheck hid⟩
      addresses := addresses_nodup hturns.ctids.1 hturns.addressed
      claimable := hturns.claimable
      fits := fun node storage bytes hbytes => by simpa using hturns.fits hbytes (Nat.zero_le _)
      hostnames := hnames.mpr hapart }

end

/-! ## A new service, and two Sites that are resumed -/

/-- A service without a home, on two nodes. -/
def webSource : Source where
  repository := "owner/web"
  branch := "main"
  commit := "c0"
  path := ".homestack/services/web/service.yaml"
  blob := "b0"
  manifest := {
    id := "web"
    name := "Web"
    imageRepository := "ghcr.io/owner/web"
    resources := none
    ports := []
    healthcheck := none
    persistence := none
    deployment := ⟨"web", 2, .spread, .stateless⟩
    pangolin := none
    schema3 := none }

def webConfig : DeployConfig where
  domain := "example.com"
  templateStorage := "local"
  pool := "services"
  bridge := "vmbr0"
  cidr := 16
  gateway := ⟨10, 0, 1, 1⟩
  nameserver := none
  caFile := none
  prometheusUrl := none

def webCluster : Cluster where
  nodes := ["pve1", "pve2"]
  storages := [⟨"pve1", "local", 10 ^ 12, 10 ^ 12⟩, ⟨"pve2", "local", 10 ^ 12, 10 ^ 12⟩]
  templates := ["pve1", "pve2"]
  releases := [webSource.image "1.0.0"]

def webChoice : Choice where
  application := []
  instanceCount := []
  swapMib := []
  version := "1.0.0"
  placements := ["pve1:local", "pve2:local"]
  ctids := []
  cores := "1"
  memoryMib := "512"
  rootMib := "1G"
  homeMib := []
  environment := []
  hostname := "web"
  domain := "example.com"
  nameserver := []
  existing := 0

/-- A cluster without guests. -/
def webPve : Pve := fun path _ =>
  if path = resourcesPath then .ok (.arr [])
  else if path = "/cluster/nextid".toList then .ok .null
  else .error (.api 500 [])

def webWorld : World where
  pve := fun _ => webPve
  resolve := fun _ => .ok ⟨"sha256:0", "sha256:0"⟩
  bootstrap := .error []
  site := none
  dns := none
  crates := ⟨fun _ => none, fun _ => none⟩
  fromStr := fun _ => none
  debug := fun t => "\"" ++ t ++ "\""

theorem plan_conflictFree_web :
    ConflictFree webWorld webConfig webSource webCluster webChoice
      (plan webWorld webConfig webSource webCluster webChoice) ∧
      Unallocated webConfig webPve [1002, 1003] := by
  obtain ⟨hplan, hautomatic⟩ := plan_conflictFree_iff webWorld webConfig webSource webCluster webChoice
  refine ⟨(hplan (by decide +kernel)).mpr ⟨?_, ?_⟩,
    (hautomatic webPve [] 2 [1002, 1003] (by decide +kernel)).2⟩
  · change ∀ e ∈ webChoice.placements, ':' ∈ e
    decide
  · intro ctids hctids
    have hfound : ctidsOf webWorld webConfig webSource webChoice = .ok ["1002", "1003"] := by decide +kernel
    obtain rfl := Except.ok.inj (hfound.symm.trans hctids)
    have hnew : (items webSource webChoice ["1002", "1003"]).map (carried webWorld webConfig) =
        [none, none] := by decide +kernel
    intro front kept rest hcarried
    have hmem : some kept ∈ [none, none] := by
      rw [← hnew, hcarried]
      simp
    simp at hmem

def siteManifest : Manifest where
  id := "pangolin"
  name := "Pangolin Site"
  imageRepository := siteImage
  resources := some ⟨1, 512, 0, 1024⟩
  ports := [⟨"http", 8080⟩]
  healthcheck := some (.http "http" "/health/ready" 200 60)
  persistence := some ⟨"/home/app", 10, ["pangolin-site"], []⟩
  deployment := ⟨"pangolin", 1, .spread, .local⟩
  pangolin := none
  schema3 := some
    { inputs := [], devices := [], configuration := none, alwaysNumbered := false, homestackTelemetry := true }

def siteSource : Source where
  repository := "hipotures/homestack"
  branch := "main"
  commit := "c0"
  path := ".homestack/services/pangolin/service.yaml"
  blob := "b0"
  manifest := siteManifest

def siteCluster : Cluster where
  nodes := ["pve1"]
  storages := [⟨"pve1", "local", 10 ^ 12, 10 ^ 12⟩]
  templates := ["pve1"]
  releases := [siteSource.image "0.18.2"]

def siteConfig : DeployConfig where
  domain := "example.com"
  templateStorage := "local"
  pool := "services"
  bridge := "vmbr0"
  cidr := 16
  gateway := ⟨10, 0, 0, 1⟩
  nameserver := none
  caFile := none
  prometheusUrl := none

def siteChoice : Choice where
  application := []
  instanceCount := "2"
  swapMib := "0"
  version := "0.18.2"
  placements := ["pve1:local"]
  ctids := "1010,1011"
  cores := "1"
  memoryMib := "512"
  rootMib := "1G"
  homeMib := "10M"
  environment := []
  hostname := "pangolin"
  domain := "example.com"
  nameserver := []
  existing := 2

def siteMount (id : Text) : Text := "local:vm-" ++ id ++ "-disk-1,mp=/home/app,size=10M"

def siteNet (octet : Text) : Text := "name=eth0,hwaddr=BC:24:11:00:00:01,ip=10.0.1." ++ octet ++ "/16"

def siteCt (id octet : Text) : Json := .obj [
  ("cores", .int 1),
  ("description", .str (description siteSource (siteSource.image "0.18.2") "sha256:0" ++ "\n" ++
    siteInitHome ++ siteMount id)),
  ("hostname", .str "pangolin"),
  ("memory", .int 512),
  ("mp0", .str (siteMount id)),
  ("net0", .str (siteNet octet)),
  ("rootfs", .str ("local:vm-" ++ id ++ "-disk-0,size=1G")),
  ("unprivileged", .int 1)]

def siteItem (id : Int) : Json :=
  .obj [("name", .str "pangolin"), ("node", .str "pve1"), ("pool", .str "services"),
  ("status", .str "stopped"), ("type", .str "lxc"), ("vmid", .int id)]

def sitePve : Pve := fun path _ =>
  if path = resourcesPath then .ok (.arr [siteItem 1010, siteItem 1011])
  else if path = lxcPath "pve1" 1010 "/config" then .ok (siteCt "1010" "10")
  else if path = lxcPath "pve1" 1011 "/config" then .ok (siteCt "1011" "11")
  else if path = pendingPath "pve1" "lxc" 1010 then
    .ok (.arr [.obj [("key", .str "net0"), ("value", .str (siteNet "10"))]])
  else if path = pendingPath "pve1" "lxc" 1011 then
    .ok (.arr [.obj [("key", .str "net0"), ("value", .str (siteNet "11"))]])
  else .error (.api 400 "")

def siteWorld : World where
  pve := fun _ => sitePve
  resolve := fun _ => .ok ⟨"sha256:0", "sha256:0"⟩
  bootstrap := .error "no bootstrap"
  site := some fun _ _ name _ => .ok ("create Site " ++ name)
  dns := none
  crates := ⟨fun _ => none, fun _ => none⟩
  fromStr := fun _ => none
  debug := fun t => "\"" ++ t ++ "\""

/-- One ticked node and an instance count of two resume two containers of one name. -/
theorem plan_resumed_names : (plan siteWorld siteConfig siteSource siteCluster siteChoice).problems = [] ∧
    ¬ ConflictFree siteWorld siteConfig siteSource siteCluster siteChoice
      (plan siteWorld siteConfig siteSource siteCluster siteChoice) := by
  have hplan : (fun p : Plan => (p.problems, p.instances.map (·.hostname)))
      (plan siteWorld siteConfig siteSource siteCluster siteChoice) =
        (([] : List Text), (["pangolin", "pangolin"] : List Text)) := by decide +kernel
  obtain ⟨hproblems, hnames⟩ := Prod.mk.inj hplan
  refine ⟨hproblems, fun h => ?_⟩
  have hnodup := h.hostnames
  rw [hnames] at hnodup
  exact absurd hnodup (by decide)

end HomeStack.Deploy
