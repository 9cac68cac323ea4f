import HomeStack.GuestLayout

/-! `walk_chain` ends, and what it returns is a simple path down to a disk or a partition. Real paths
that become known on the way are those that the guest had before, so that a row keeps its key for the
whole walk. -/

namespace HomeStack.ResizeGuest

open Runs

/-! ## Real paths -/

section

variable (guest : GuestSystem)

/-- The real path of a path, when `known` ones are not asked for again. -/
def resolve (known : Real) (path : Text) : Option Text :=
  match known.lookup path with
  | some real => some real
  | none =>
    match guest.realpaths [path] with
    | .ok [real] => some real
    | _ => none

def SamePaths (s t : Real) : Prop := ∀ path, resolve guest t path = resolve guest s path

end

variable {guest : GuestSystem} {s t : Real}

theorem samePaths_refl (s : Real) : SamePaths guest s s := fun _ => rfl

theorem samePaths_trans (s t u : Real) (hst : SamePaths guest s t) (htu : SamePaths guest t u) :
    SamePaths guest s u :=
  fun path => (htu path).trans (hst path)

theorem resolve_known {path real : Text} (h : s.lookup path = some real) :
    resolve guest s path = some real := by
  simp [resolve, h]

theorem resolve_asked {path real : Text} (h : s.lookup path = none)
    (hr : guest.realpaths [path] = .ok [real]) :
    resolve guest s path = some real := by
  simp [resolve, h, hr]

theorem samePaths_asked {path real : Text} (h : s.lookup path = none)
    (hr : guest.realpaths [path] = .ok [real]) :
    SamePaths guest s (s ++ [(path, real)]) := by
  intro other
  cases ho : s.lookup other with
  | some known =>
    rw [resolve_known ho, resolve_known]
    simp [List.lookup_append, ho]
  | none =>
    by_cases he : other = path
    · subst he
      rw [resolve_asked h hr, resolve_known]
      simp [List.lookup_append, h]
    · have hn : (s ++ [(path, real)]).lookup other = none := by
        simp [List.lookup_append, ho, List.lookup_cons, beq_eq_false_iff_ne.mpr he]
      simp [resolve, ho, hn]

theorem gives_fail {α : Type} {message : Text} {a : α} : ¬ Gives (fail message) s a t := gives_throw

theorem gives_require {condition : Bool} {message : Text} {a : PUnit} :
    Gives (require condition message) s a t ↔ condition = true ∧ t = s := by
  unfold require
  cases condition with
  | true => simpa using gives_pure (a := PUnit.unit) (b := a) (s := s) (t := t)
  | false => simpa using gives_fail

theorem gives_ask {α : Type} {answer : Except CoreError α} {a : α} :
    Gives (ask answer) s a t ↔ answer = .ok a ∧ t = s := by
  unfold ask
  cases answer with
  | ok b => simpa [eq_comm] using gives_pure (a := b) (b := a) (s := s) (t := t)
  | error e => simpa using gives_throw

theorem gives_require_bind {α : Type} {condition : Bool} {message : Text} {f : PUnit → Inspect α} {b : α} :
    Gives (require condition message >>= f) s b t ↔ condition = true ∧ Gives (f ⟨⟩) s b t := by
  constructor
  · intro h
    obtain ⟨_, u, hreq, h⟩ := gives_bind.mp h
    obtain ⟨hc, hu⟩ := gives_require.1 hreq
    rw [hu] at h
    exact ⟨hc, h⟩
  · rintro ⟨hc, h⟩
    exact gives_bind.mpr ⟨⟨⟩, s, gives_require.2 ⟨hc, rfl⟩, h⟩

theorem gives_ask_bind {α β : Type} {answer : Except CoreError α} {f : α → Inspect β} {b : β} :
    Gives (ask answer >>= f) s b t ↔ ∃ a, answer = .ok a ∧ Gives (f a) s b t := by
  constructor
  · intro h
    obtain ⟨a, u, hask, h⟩ := gives_bind.mp h
    obtain ⟨ha, hu⟩ := gives_ask.1 hask
    rw [hu] at h
    exact ⟨a, ha, h⟩
  · rintro ⟨a, ha, h⟩
    exact gives_bind.mpr ⟨a, s, gives_ask.2 ⟨ha, rfl⟩, h⟩

theorem wanted_single {path : Text} (h : s.lookup path = none) :
    (([path].filter fun path => (s.lookup path).isNone).dedup).insertionSort (· ≤ ·) = [path] := by
  simp [h]

theorem prefetch_single {path : Text} {a : PUnit} (h : s.lookup path = none)
    (hg : Gives (prefetch guest [path]) s a t) :
    ∃ real, guest.realpaths [path] = .ok [real] ∧ t = s ++ [(path, real)] := by
  unfold prefetch at hg
  replace hg := gives_get_bind.mp hg
  simp only [wanted_single h, List.cons_ne_nil, if_false] at hg
  obtain ⟨real, hr, hg⟩ := gives_ask_bind.1 hg
  by_cases hl : real.length = [path].length
  · rw [if_neg (by simpa using hl)] at hg
    obtain ⟨one, rfl⟩ := List.length_eq_one_iff.mp hl
    exact ⟨one, hr, by simpa using gives_set.mp hg⟩
  · rw [if_pos (by simpa using hl)] at hg
    exact absurd hg gives_throw

theorem realpath_gives {path real : Text} (h : Gives (realpath guest path) s real t) :
    resolve guest s path = some real ∧ SamePaths guest s t := by
  unfold realpath at h
  replace h := gives_get_bind.mp h
  cases hl : s.lookup path with
  | some one =>
    simp only [hl] at h
    obtain ⟨rfl, rfl⟩ := gives_pure.mp h
    exact ⟨resolve_known hl, samePaths_refl _⟩
  | none =>
    simp only [hl] at h
    obtain ⟨_, u, hpre, h⟩ := gives_bind.mp h
    obtain ⟨one, hr, rfl⟩ := prefetch_single hl hpre
    replace h := gives_get_bind.mp h
    obtain ⟨rfl, rfl⟩ := gives_pure.mp h
    have hone : (s ++ [(path, one)]).lookup path = some one := by simp [List.lookup_append, hl]
    rw [hone]
    exact ⟨resolve_asked hl hr, samePaths_asked hl hr⟩

theorem ends_fail {α : Type} (message : Text) (s : Real) : Ends (fail message : Inspect α) s := ends_throw _ s

theorem ends_require (condition : Bool) (message : Text) (s : Real) : Ends (require condition message) s :=
  ends_ite (fun _ => ends_pure _ s) fun _ => ends_fail message s

theorem ends_ask {α : Type} (answer : Except CoreError α) (s : Real) : Ends (ask answer) s := by
  unfold ask
  cases answer with
  | ok a => exact ends_pure a s
  | error e => exact ends_throw _ s

theorem ends_prefetch (paths : List Text) (s : Real) : Ends (prefetch guest paths) s := by
  unfold prefetch
  apply ends_bind (ends_get s)
  intro known t _
  apply ends_ite (fun _ => ends_pure _ t)
  intro _
  apply ends_bind (ends_ask _ t)
  intro real u _
  exact ends_ite (fun _ => ends_throw _ u) fun _ => ends_set u _

theorem ends_realpath (path : Text) (s : Real) : Ends (realpath guest path) s := by
  unfold realpath
  apply ends_bind (ends_get s)
  intro known t _
  split
  · exact ends_pure _ t
  · apply ends_bind (ends_prefetch [path] t)
    intro _ u _
    exact ends_bind (ends_get u) fun _ v _ => ends_pure _ v

namespace Inspector

variable (this : Inspector)

/-! ## The rows below a row -/

/-- The row that a name leads to. -/
def lead (known : Real) (value : Text) : Option this.Index :=
  if value = [] then none else (resolve this.guest known (devPath value)).bind fun real =>
    this.byPath.lookup real

def key (known : Real) (i : this.Index) : Option Text :=
  if (this.row i).mm ≠ [] then some (this.row i).mm else resolve this.guest known (this.row i).name

/-- The slaves that the guest lists for a row. -/
def slaves (known : Real) (i : this.Index) : List Text :=
  match resolve this.guest known (this.row i).name with
  | some real => (this.guest.listDir (slavesPath (basename real))).toOption.getD []
  | none => []

/-- The rows that a row's `PKNAME` and its slaves lead to. -/
def candidates (known : Real) (i : this.Index) : List this.Index :=
  (pyStr (this.row i).pkname :: this.slaves known i).filterMap (this.lead known)

/-- All that is below a row is this one, the last of those with its key. -/
def OnlyBelow (known : Real) (current below : this.Index) : Prop :=
  (this.candidates known current).getLast? = some below ∧ ∀ other ∈ this.candidates known current,
    this.key known other = this.key known below

/-- The distinct keys of the rows. -/
def keys (known : Real) : List (Option Text) := ((List.finRange this.rows.length).map (this.key known)).dedup

variable {this}

theorem lead_same (h : SamePaths this.guest s t) : this.lead t = this.lead s := by
  funext value
  unfold lead
  rw [h]

theorem key_same (h : SamePaths this.guest s t) : this.key t = this.key s := by
  funext i
  unfold key
  rw [h]

theorem candidates_same (h : SamePaths this.guest s t) : this.candidates t = this.candidates s := by
  funext i
  unfold candidates slaves
  rw [h, lead_same h]

theorem onlyBelow_same (h : SamePaths this.guest s t) : this.OnlyBelow t = this.OnlyBelow s := by
  funext current below
  unfold OnlyBelow
  rw [candidates_same h, key_same h]

theorem rowFor_gives {value : Text} {found : Option this.Index} (h : Gives (this.rowFor value) s found t) :
    found = this.lead s value ∧ SamePaths this.guest s t := by
  unfold rowFor at h
  unfold lead
  by_cases hv : value = []
  · rw [if_pos hv] at h ⊢
    obtain ⟨rfl, rfl⟩ := gives_pure.mp h
    exact ⟨rfl, samePaths_refl _⟩
  · rw [if_neg hv] at h ⊢
    obtain ⟨real, u, hreal, h⟩ := gives_bind.mp h
    obtain ⟨hr, hsame⟩ := realpath_gives hreal
    obtain ⟨rfl, rfl⟩ := gives_pure.mp h
    have hdev : resolve this.guest s (devPath value) = some real := hr
    rw [hdev]
    exact ⟨rfl, hsame⟩

theorem rowKey_gives {i : this.Index} {key : Text} (h : Gives (this.rowKey i) s key t) :
    this.key s i = some key ∧ SamePaths this.guest s t := by
  unfold rowKey at h
  unfold Inspector.key
  by_cases hm : (this.row i).mm ≠ []
  · rw [if_pos hm] at h ⊢
    obtain ⟨rfl, rfl⟩ := gives_pure.mp h
    exact ⟨rfl, samePaths_refl _⟩
  · rw [if_neg hm] at h ⊢
    exact realpath_gives h

/-- Some rows were found, each under its key, where the last one stands. -/
structure Collected (this : Inspector) (known : Real) (rows : List this.Index)
    (found : List (Text × this.Index)) : Prop where
  key : ∀ e ∈ found, this.key known e.2 = some e.1
  mem : ∀ e ∈ found, e.2 ∈ rows
  all : ∀ i ∈ rows, ∃ e ∈ found, this.key known i = some e.1
  last : ∀ i, rows.getLast? = some i → ∃ e ∈ found, e.2 = i

theorem collected_nil (known : Real) : this.Collected known [] [] := by
  constructor <;> simp

theorem mem_addParent {found : List (Text × this.Index)} {key : Text} {i : this.Index} {e : Text × this.Index}
    (h : e ∈ this.addParent found key i) : e = (key, i) ∨ e ∈ found := by
  unfold addParent at h
  split at h
  · obtain ⟨e', he', rfl⟩ := List.mem_map.mp h
    by_cases hk : e'.1 = key
    · simp [hk]
    · simp [hk, he']
  · simpa [or_comm] using h

theorem self_mem_addParent (found : List (Text × this.Index)) (key : Text) (i : this.Index) :
    (key, i) ∈ this.addParent found key i := by
  unfold addParent
  split
  · rename_i h
    obtain ⟨e, he, hk⟩ := List.any_eq_true.mp h
    have hk : e.1 = key := by simpa using hk
    exact List.mem_map.mpr ⟨e, he, by simp [hk]⟩
  · simp

/-- No key is lost. -/
theorem keys_addParent {found : List (Text × this.Index)} {e : Text × this.Index} (h : e ∈ found)
    (key : Text) (i : this.Index) :
    ∃ e' ∈ this.addParent found key i, e'.1 = e.1 := by
  unfold addParent
  split
  · by_cases hk : e.1 = key
    · exact ⟨(key, i), List.mem_map.mpr ⟨e, h, by simp [hk]⟩, hk.symm⟩
    · exact ⟨e, List.mem_map.mpr ⟨e, h, by simp [hk]⟩, rfl⟩
  · exact ⟨e, by simp [h], rfl⟩

theorem Collected.add {known : Real} {rows : List this.Index} {found : List (Text × this.Index)} {key : Text}
    {i : this.Index} (h : this.Collected known rows found) (hk : this.key known i = some key) :
    this.Collected known (rows ++ [i]) (this.addParent found key i) := by
  constructor
  · intro e he
    rcases mem_addParent he with rfl | he
    · exact hk
    · exact h.key e he
  · intro e he
    rcases mem_addParent he with rfl | he
    · simp
    · exact List.mem_append_left _ (h.mem e he)
  · intro j hj
    rcases List.mem_append.mp hj with hj | hj
    · obtain ⟨e, he, hke⟩ := h.all j hj
      obtain ⟨e', he', heq⟩ := keys_addParent he key i
      exact ⟨e', he', by rw [heq, hke]⟩
    · rw [List.mem_singleton.mp hj]
      exact ⟨(key, i), self_mem_addParent found key i, hk⟩
  · intro j hj
    obtain rfl : i = j := by simpa using hj
    exact ⟨(key, i), self_mem_addParent found key i, rfl⟩

theorem collected_addCandidate {rows : List this.Index} {found found' : List (Text × this.Index)}
    {value : Text} {s₀ : Real} (hc : this.Collected s₀ rows found) (hs : SamePaths this.guest s₀ s)
    (h : Gives (this.addCandidate found value) s found' t) :
    this.Collected s₀ (rows ++ (this.lead s₀ value).toList) found' ∧ SamePaths this.guest s₀ t := by
  unfold addCandidate at h
  obtain ⟨row, u, hrow, h⟩ := gives_bind.mp h
  obtain ⟨hlead, hsu⟩ := rowFor_gives hrow
  have hu := samePaths_trans _ _ _ hs hsu
  rw [lead_same hs] at hlead
  rw [← hlead]
  cases row with
  | none =>
    obtain ⟨rfl, rfl⟩ := gives_pure.mp h
    exact ⟨by simpa using hc, hu⟩
  | some candidate =>
    obtain ⟨key, v, hkey, h⟩ := gives_bind.mp h
    obtain ⟨hk, huv⟩ := rowKey_gives hkey
    obtain ⟨rfl, rfl⟩ := gives_pure.mp h
    rw [key_same hu] at hk
    exact ⟨hc.add hk, samePaths_trans _ _ _ hu huv⟩

theorem collected_foldlM {rows : List this.Index} {values : List Text}
    {found found' : List (Text × this.Index)} {s₀ : Real} (hc : this.Collected s₀ rows found)
    (hs : SamePaths this.guest s₀ s) (h : Gives (values.foldlM this.addCandidate found) s found' t) :
    this.Collected s₀ (rows ++ values.filterMap (this.lead s₀)) found' ∧ SamePaths this.guest s₀ t := by
  induction values generalizing rows found s with
  | nil =>
    obtain ⟨rfl, rfl⟩ := gives_pure.mp h
    exact ⟨by simpa using hc, hs⟩
  | cons value values ih =>
    rw [List.foldlM_cons] at h
    obtain ⟨one, u, hone, h⟩ := gives_bind.mp h
    obtain ⟨hc', hu⟩ := collected_addCandidate hc hs hone
    have hrest := ih hc' hu h
    rw [List.append_assoc] at hrest
    cases hl : this.lead s₀ value with
    | none => simpa [List.filterMap_cons, hl] using hrest
    | some i => simpa [List.filterMap_cons, hl] using hrest

theorem parents_gives {current : this.Index} {rows : List this.Index}
    (h : Gives (this.parents current) s rows t) :
    (∃ found, rows = found.map Prod.snd ∧ this.Collected s (this.candidates s current) found) ∧
      SamePaths this.guest s t := by
  unfold parents at h
  obtain ⟨first, v, hfirst, h⟩ := gives_bind.mp h
  obtain ⟨hc, hv⟩ := collected_addCandidate (collected_nil s) (samePaths_refl s) hfirst
  obtain ⟨real, w, hreal, h⟩ := gives_bind.mp h
  obtain ⟨hr, hvw⟩ := realpath_gives hreal
  rw [hv] at hr
  obtain ⟨slaves, hsl, h⟩ := gives_ask_bind.1 h
  obtain ⟨found, x, hfound, h⟩ := gives_bind.mp h
  obtain ⟨hc, hx⟩ := collected_foldlM hc (samePaths_trans _ _ _ hv hvw) hfound
  obtain ⟨rfl, rfl⟩ := gives_pure.mp h
  have hall : [] ++ (this.lead s (pyStr (this.row current).pkname)).toList ++ slaves.filterMap (this.lead s) =
      this.candidates s current := by
    have hsl' : this.slaves s current = slaves := by simp [Inspector.slaves, hr, hsl, Except.toOption]
    unfold candidates
    rw [hsl', List.filterMap_cons]
    cases this.lead s (pyStr (this.row current).pkname) <;> simp
  rw [hall] at hc
  exact ⟨⟨found, rfl, hc⟩, hx⟩

theorem onlyParent_gives {current next : this.Index} (h : Gives (this.onlyParent current) s next t) :
    this.OnlyBelow s current next ∧ SamePaths this.guest s t := by
  unfold onlyParent at h
  obtain ⟨rows, u, hrows, h⟩ := gives_bind.mp h
  obtain ⟨⟨found, rfl, hc⟩, hu⟩ := parents_gives hrows
  match found, hc, h with
  | [], _, h => exact absurd h gives_fail
  | [e], hc, h =>
    obtain ⟨rfl, rfl⟩ := gives_pure.mp h
    have hne := List.ne_nil_of_mem (hc.mem e (by simp))
    obtain ⟨e', he', hlast⟩ := hc.last _ (List.getLast?_eq_getLast_of_ne_nil hne)
    rw [List.mem_singleton.mp he'] at hlast
    refine ⟨⟨?_, fun other hother => ?_⟩, hu⟩
    · rw [List.getLast?_eq_getLast_of_ne_nil hne, hlast]
    · obtain ⟨e', he', hk⟩ := hc.all other hother
      rw [List.mem_singleton.mp he'] at hk
      rw [hk, hc.key e (by simp)]
  | _ :: _ :: _, _, h => exact absurd h gives_fail

/-! ## The walk -/

/-- A round: the only row below, with a key that was not met. -/
theorem walk_round {fuel : Nat} {chain result : List this.Index} {seen : List Text} {current : this.Index}
    (hc : this.physical current = false) (h : Gives (this.walk (fuel + 1) chain seen current) s result t) :
    ∃ next key u, this.OnlyBelow s current next ∧ this.key s next = some key ∧ key ∉ seen ∧
      SamePaths this.guest s u ∧
      Gives (this.walk fuel (next :: chain) (key :: seen) next) u result t := by
  rw [walk, if_neg (by simp [hc])] at h
  obtain ⟨next, u, hnext, h⟩ := gives_bind.mp h
  obtain ⟨hb, hu⟩ := onlyParent_gives hnext
  obtain ⟨key, v, hkey, h⟩ := gives_bind.mp h
  obtain ⟨hk, hv⟩ := rowKey_gives hkey
  obtain ⟨hseen, h⟩ := gives_require_bind.1 h
  rw [key_same hu] at hk
  exact ⟨next, key, v, hb, hk, by simpa using hseen, samePaths_trans _ _ _ hu hv, h⟩

/-- The walk so far, from its last row back to its first. -/
structure Walked (this : Inspector) (known : Real) (start : this.Index) (chain : List this.Index)
    (seen : List Text) (current : this.Index) : Prop where
  current : chain.head? = some current
  start : chain.getLast? = some start
  keys : chain.map (this.key known) = seen.map some
  distinct : seen.Nodup
  linked : chain.IsChain fun below above => this.OnlyBelow known above below
  inner : ∀ i ∈ chain.tail, this.physical i = false

theorem Walked.step {start current next : this.Index} {chain : List this.Index} {seen : List Text}
    {key : Text} (h : this.Walked s start chain seen current) (hc : this.physical current = false)
    (hb : this.OnlyBelow s current next) (hk : this.key s next = some key) (hnew : key ∉ seen) :
    this.Walked s start (next :: chain) (key :: seen) next := by
  have hhead := h.current
  cases chain with
  | nil => simp at hhead
  | cons head rest =>
    obtain rfl : head = current := by simpa using hhead
    constructor
    · rfl
    · rw [List.getLast?_cons_cons]
      exact h.start
    · rw [List.map_cons, hk, h.keys, List.map_cons]
    · exact List.nodup_cons.mpr ⟨hnew, h.distinct⟩
    · exact List.isChain_cons_cons.mpr ⟨hb, h.linked⟩
    · intro i hi
      rcases List.mem_cons.mp hi with rfl | hi
      · exact hc
      · exact h.inner i hi

/-- What the walk returns was walked, down to a disk or a partition. -/
theorem walk_gives {fuel : Nat} {start current : this.Index} {chain result : List this.Index}
    {seen : List Text} {s₀ : Real} (hw : this.Walked s₀ start chain seen current)
    (hs : SamePaths this.guest s₀ s) (h : Gives (this.walk fuel chain seen current) s result t) :
    SamePaths this.guest s₀ t ∧ ∃ back seen' last, this.Walked s₀ start back seen' last ∧
      this.physical last = true ∧
      result = back.reverse := by
  induction fuel generalizing chain seen current s with
  | zero =>
    rw [walk] at h
    split at h
    · rename_i hp
      obtain ⟨rfl, rfl⟩ := gives_pure.mp h
      exact ⟨hs, chain, seen, current, hw, hp, rfl⟩
    · exact absurd h nofun
  | succ fuel ih =>
    cases hp : this.physical current with
    | true =>
      rw [walk, if_pos hp] at h
      obtain ⟨rfl, rfl⟩ := gives_pure.mp h
      exact ⟨hs, chain, seen, current, hw, hp, rfl⟩
    | false =>
      obtain ⟨next, key, u, hb, hk, hnew, hu, h⟩ := walk_round hp h
      rw [onlyBelow_same hs] at hb
      rw [key_same hs] at hk
      exact ih (hw.step hp hb hk hnew) (samePaths_trans _ _ _ hs hu) h

theorem key_mem_keys (known : Real) (i : this.Index) : this.key known i ∈ this.keys known :=
  List.mem_dedup.mpr (List.mem_map.mpr ⟨i, List.mem_finRange i, rfl⟩)

/-- Distinct keys of rows are no more than the keys. -/
theorem length_le_keys {known : Real} {seen : List (Option Text)} (hd : seen.Nodup)
    (hk : ∀ key ∈ seen, key ∈ this.keys known) :
    seen.length ≤ (this.keys known).length := (hd.subperm hk).length_le

theorem ends_rowFor (value : Text) (s : Real) : Ends (this.rowFor value) s := by
  unfold rowFor
  apply ends_ite (fun _ => ends_pure _ s)
  intro _
  exact ends_bind (ends_realpath _ s) fun _ t _ => ends_pure _ t

theorem ends_rowKey (i : this.Index) (s : Real) : Ends (this.rowKey i) s :=
  ends_ite (fun _ => ends_pure _ s) fun _ => ends_realpath _ s

theorem ends_addCandidate (found : List (Text × this.Index)) (value : Text) (s : Real) :
    Ends (this.addCandidate found value) s := by
  unfold addCandidate
  apply ends_bind (ends_rowFor value s)
  intro row t _
  cases row with
  | none => exact ends_pure _ t
  | some candidate => exact ends_bind (ends_rowKey candidate t) fun _ u _ => ends_pure _ u

theorem ends_onlyParent (current : this.Index) (s : Real) : Ends (this.onlyParent current) s := by
  unfold onlyParent parents
  apply ends_bind
  · apply ends_bind (ends_addCandidate _ _ s)
    intro _ t _
    apply ends_bind (ends_realpath _ t)
    intro _ u _
    apply ends_bind (ends_ask _ u)
    intro slaves v _
    apply ends_bind (ends_foldlM (fun found value _ w => ends_addCandidate found value w) _ v)
    intro _ w _
    exact ends_pure _ w
  · intro found t _
    split
    · exact ends_fail _ t
    · exact ends_pure _ t
    · exact ends_fail _ t

/-- Each round meets a key that was not met before. -/
theorem ends_walk {fuel : Nat} {start current : this.Index} {chain : List this.Index} {seen : List Text}
    {s₀ : Real} (hw : this.Walked s₀ start chain seen current) (hs : SamePaths this.guest s₀ s)
    (hf : (this.keys s₀).length < fuel + seen.length) : Ends (this.walk fuel chain seen current) s := by
  induction fuel generalizing chain seen current s with
  | zero =>
    have hle : (seen.map some).length ≤ (this.keys s₀).length := by
      apply length_le_keys (hw.distinct.map (Option.some_injective _))
      intro key hkey
      rw [← hw.keys] at hkey
      obtain ⟨i, -, rfl⟩ := List.mem_map.mp hkey
      exact key_mem_keys s₀ i
    rw [List.length_map] at hle
    omega
  | succ fuel ih =>
    rw [walk]
    apply ends_ite (fun _ => ends_pure _ s)
    intro hp
    apply ends_bind (ends_onlyParent current s)
    intro next t hnext
    obtain ⟨hb, ht⟩ := onlyParent_gives hnext
    apply ends_bind (ends_rowKey next t)
    intro key u hkey
    obtain ⟨hk, hu⟩ := rowKey_gives hkey
    apply ends_bind (ends_require _ _ u)
    intro _ v hreq
    obtain ⟨hnew, rfl⟩ := gives_require.1 hreq
    rw [key_same ht, key_same hs] at hk
    rw [onlyBelow_same hs] at hb
    have hstep := hw.step (by simpa using hp) hb hk (by simpa using hnew)
    apply ih hstep (samePaths_trans _ _ _ hs (samePaths_trans _ _ _ ht hu))
    rw [List.length_cons]
    omega

/-- From a row down to a disk or a partition, over rows of distinct keys, each the only one below the
one before. -/
structure SimplePath (this : Inspector) (known : Real) (start : this.Index) (chain : List this.Index) :
    Prop where
  starts : chain.head? = some start
  distinct : (chain.map (this.key known)).Nodup
  linked : chain.IsChain (this.OnlyBelow known)
  short : chain.length ≤ (this.keys known).length
  physical : ∃ last, chain.getLast? = some last ∧ this.physical last = true
  inner : ∀ i ∈ chain.dropLast, this.physical i = false

theorem Walked.simplePath {start current : this.Index} {chain : List this.Index} {seen : List Text}
    (h : this.Walked s start chain seen current) (hp : this.physical current = true) :
      this.SimplePath s start chain.reverse := by
  have hd : (chain.map (this.key s)).Nodup := by
    rw [h.keys]
    exact h.distinct.map (Option.some_injective _)
  constructor
  · rw [List.head?_reverse]
    exact h.start
  · rw [List.map_reverse, List.nodup_reverse]
    exact hd
  · rw [List.isChain_reverse]
    exact h.linked
  · have hle := length_le_keys hd fun key hkey => by
      obtain ⟨i, -, rfl⟩ := List.mem_map.mp hkey
      exact key_mem_keys s i
    simpa using hle
  · exact ⟨current, by rw [List.getLast?_reverse]; exact h.current, hp⟩
  · intro i hi
    rw [List.dropLast_reverse] at hi
    exact h.inner i (List.mem_reverse.mp hi)

theorem walked_start {start : this.Index} {key : Text} (hk : this.key s start = some key) :
    this.Walked s start [start] [key] start := by
  constructor <;> simp [hk]

theorem walkChain_gives {fuel : Nat} {start : this.Index} {chain : List this.Index}
    (h : Gives (this.walkChain fuel start) s chain t) :
    this.SimplePath s start chain ∧ SamePaths this.guest s t := by
  unfold walkChain at h
  obtain ⟨key, u, hkey, h⟩ := gives_bind.mp h
  obtain ⟨hk, hu⟩ := rowKey_gives hkey
  obtain ⟨ht, back, seen, last, hw, hp, rfl⟩ := walk_gives (walked_start hk) hu h
  exact ⟨hw.simplePath hp, ht⟩

theorem ends_walkChain {fuel : Nat} (start : this.Index) (hf : (this.keys s).length ≤ fuel) :
    Ends (this.walkChain fuel start) s := by
  unfold walkChain
  apply ends_bind (ends_rowKey start s)
  intro key t hkey
  obtain ⟨hk, ht⟩ := rowKey_gives hkey
  apply ends_walk (walked_start hk) ht
  rw [List.length_singleton]
  omega

/-- `walk_chain` ends within as many rounds as the rows have distinct keys, and returns only a simple path. -/
theorem walk_chain_simple (this : Inspector) (known : Real) (start : this.Index) :
    (∀ fuel, (this.keys known).length ≤ fuel → Ends (this.walkChain fuel start) known) ∧
    ∀ fuel chain after, Gives (this.walkChain fuel start) known chain after →
      this.SimplePath known start chain := by
  constructor
  · intro fuel hf
    exact ends_walkChain start hf
  · intro fuel chain after h
    exact (walkChain_gives h).1

end Inspector

end HomeStack.ResizeGuest
