import HomeStack.Deploy
import HomeStack.Lib.Decimal
import Mathlib.Data.List.Destutter
import Mathlib.Data.List.Sort

/-! Version tags of images (`registry.rs`): how they are read, which of two images is newer, and the
list of the recent ones. -/

namespace HomeStack.Versions

open Deploy (version versionNumber)

/-- `rsplit_once` at a character -/
def rsplitOnce (c : Char) (t : Text) : Option (Text × Text) :=
  (Text.splitOnce [c] t.reverse).map fun (a, b) => (b.reverse, a.reverse)

/-- `REGISTRY/PATH:TAG` as its registry, path and tag. -/
def split (image : Text) : Option (Text × Text × Text) := do
  let (repository, tag) ← rsplitOnce ':' image
  let (host, path) ← Text.splitOnce "/" repository
  if tag ≠ [] ∧ '/' ∉ tag ∧ path ≠ [] then some (host, path, tag) else none

/-- Whether `offered` is a later HomeStack build in the same repository. -/
def newer (offered current : Text) : Bool :=
  match split offered, split current with
  | some (host, path, tag), some (nowHost, nowPath, nowTag) =>
    match version tag, version nowTag with
    | some offered, some now => (host, path) = (nowHost, nowPath) && now < offered
    | _, _ => false
  | _, _ => false

/-- The order of `Reverse(version(tag))`; a tag without a version is last. -/
def before (a b : Text) : Prop := (version b).getD [] ≤ (version a).getD []

instance : DecidableRel before :=
  fun a b => inferInstanceAs (Decidable ((version b).getD [] ≤ (version a).getD []))

/-- The tags of `recent`: those with a version, sorted by it, without repetitions (`dedup` takes away an
equal neighbour). -/
def recentTags (tags : List Text) : List Text :=
  ((tags.filter fun tag => (version tag).isSome).insertionSort before).destutter (· ≠ ·)

/-! ## Versions are canonical -/

def releaseOf (major minor patch : Nat) : Text :=
  Text.ofNat major ++ '.' :: (Text.ofNat minor ++ '.' :: Text.ofNat patch)

/-- The tag of a version. -/
def canonical (major minor patch build : Nat) : Text :=
  if build = 0 then releaseOf major minor patch else releaseOf major minor patch ++ '-' :: Text.ofNat build

/-- A number of a version is the text of a `u64`. -/
theorem versionNumber_eq {part : Text} {n : Nat} (h : versionNumber part = some n) : part = Text.ofNat n := by
  unfold versionNumber at h
  rw [Option.ite_none_right_eq_some] at h
  obtain ⟨⟨hne, hdigits, hzero⟩, hread⟩ := h
  rw [Text.parseNat_digits hdigits hne] at hread
  obtain ⟨-, heq⟩ := Option.ite_none_right_eq_some.mp hread
  rw [← Option.some.inj heq]
  refine (Text.ofNat_digitsValue hne hdigits fun hhead => ?_).symm
  by_contra hlong
  have hlen := List.length_pos_iff.mpr hne
  exact hzero ⟨by omega, hhead⟩

/-- Three numbers between dots. -/
theorem release_eq {release : Text} {build : Nat} {v : List Nat}
    (h : (match release.splitOn '.' with
      | [major, minor, patch] => (versionNumber major).bind fun major =>
        (versionNumber minor).bind fun minor =>
        (versionNumber patch).bind fun patch => some [major, minor, patch, build]
      | _ => none) = some v) :
    ∃ major minor patch, v = [major, minor, patch, build] ∧ release = releaseOf major minor patch := by
  split at h
  · rename_i first second third hparts
    simp only [Option.bind_eq_some_iff, Option.some.injEq] at h
    obtain ⟨major, hmajor, minor, hminor, patch, hpatch, rfl⟩ := h
    have hjoin : List.intercalate ['.'] (release.splitOn '.') = release := List.intercalate_splitOn '.'
    rw [hparts, versionNumber_eq hmajor, versionNumber_eq hminor, versionNumber_eq hpatch] at hjoin
    refine ⟨major, minor, patch, rfl, ?_⟩
    rw [← hjoin]
    simp [List.intercalate, releaseOf]
  · cases h

/-- An accepted tag is the tag of its version. -/
theorem version_eq {tag : Text} {v : List Nat} (h : version tag = some v) :
    ∃ major minor patch build, v = [major, minor, patch, build] ∧
      tag = canonical major minor patch build := by
  unfold version at h
  simp only [Option.bind_eq_bind] at h
  unfold canonical
  split at h
  · rename_i release text hsplit
    obtain ⟨⟨release', build⟩, hbuild, hrelease⟩ := Option.bind_eq_some_iff.mp h
    obtain ⟨n, hn, heq⟩ := Option.map_eq_some_iff.mp hbuild
    cases heq
    obtain ⟨hnumber, hpos⟩ := Option.filter_eq_some_iff.mp hn
    have hpos : build ≠ 0 := by
      rintro rfl
      exact absurd hpos (by decide)
    obtain ⟨major, minor, patch, rfl, hparts⟩ := release_eq hrelease
    have htag : tag = release ++ '-' :: text := by simpa using Text.splitOnce_some hsplit
    dsimp only at hparts
    exact ⟨major, minor, patch, build, rfl, by rw [if_neg hpos, htag, hparts, versionNumber_eq hnumber]⟩
  · obtain ⟨major, minor, patch, rfl, hparts⟩ := release_eq h
    dsimp only at hparts
    exact ⟨major, minor, patch, 0, rfl, by rw [if_pos rfl, hparts]⟩

theorem version_injective {a b : Text} {v : List Nat} (ha : version a = some v) (hb : version b = some v) :
    a = b := by
  obtain ⟨major, minor, patch, build, rfl, rfl⟩ := version_eq ha
  obtain ⟨major', minor', patch', build', heq, rfl⟩ := version_eq hb
  cases heq
  rfl

/-! ## Images -/

theorem newer_iff {offered current : Text} : newer offered current = true ↔ ∃ host path tag nowTag v w,
    split offered = some (host, path, tag) ∧ split current = some (host, path, nowTag) ∧
      version tag = some v ∧
      version nowTag = some w ∧ w < v := by
  unfold newer
  constructor
  · intro h
    split at h
    · rename_i host path tag nowHost nowPath nowTag hoffered hcurrent
      split at h
      · rename_i v w hv hw
        rw [Bool.and_eq_true, decide_eq_true_eq, decide_eq_true_eq] at h
        obtain ⟨heq, hlt⟩ := h
        cases heq
        exact ⟨host, path, tag, nowTag, v, w, hoffered, hcurrent, hv, hw, hlt⟩
      · cases h
    · cases h
  · rintro ⟨host, path, tag, nowTag, v, w, hoffered, hcurrent, hv, hw, hlt⟩
    simp [hoffered, hcurrent, hv, hw, hlt]

/-- The text of an image. -/
def image (repository tag : Text) : Text := repository ++ ':' :: tag

theorem not_mem_canonical {c : Char} (hdigit : c.isDigit = false) (hdot : c ≠ '.') (hdash : c ≠ '-')
    (major minor patch build : Nat) :
    c ∉ canonical major minor patch build := by
  have hnumber : ∀ n, c ∉ Text.ofNat n := by
    intro n hmem
    rw [Nat.isDigit_of_mem_toDigits (by decide) (by decide) hmem] at hdigit
    cases hdigit
  unfold canonical releaseOf
  split <;> simp [hnumber, hdot, hdash]

/-- An accepted tag is that of its image. -/
theorem split_image {repository host path tag : Text} {v : List Nat}
    (hrepository : Text.splitOnce "/" repository = some (host, path)) (hpath : path ≠ [])
    (htag : version tag = some v) : split (image repository tag) = some (host, path, tag) := by
  obtain ⟨major, minor, patch, build, -, rfl⟩ := version_eq htag
  have hcolon := not_mem_canonical (c := ':') (by decide) (by decide) (by decide) major minor patch build
  have hslash := not_mem_canonical (c := '/') (by decide) (by decide) (by decide) major minor patch build
  have hne : canonical major minor patch build ≠ [] := by
    unfold canonical releaseOf
    split <;> simp
  have hnone : Text.splitOnce [':'] (canonical major minor patch build).reverse = none :=
    Text.splitOnce_none_of_not_mem [] _ (by simpa using hcolon)
  have hlast : rsplitOnce ':' (image repository (canonical major minor patch build)) =
      some (repository, canonical major minor patch build) := by
    have happend := Text.splitOnce_append (b := repository.reverse) (List.not_mem_nil (a := ':')) hnone
    unfold rsplitOnce image
    rw [List.reverse_append, List.reverse_cons, List.append_assoc, List.singleton_append,
      ← List.nil_append repository.reverse, happend]
    simp
  unfold split
  simp only [hlast, hrepository, Option.bind_eq_bind, Option.bind_some]
  exact if_pos ⟨hne, hslash, hpath⟩

/-! ## Recent tags -/

instance : Std.Total before := ⟨fun a b => le_total ((version b).getD []) ((version a).getD [])⟩

instance : IsTrans Text before := ⟨fun _ _ _ hab hbc => hbc.trans hab⟩

/-- Both tags have a version, and the first one's is later. -/
def Later (a b : Text) : Prop := ∃ v w, version a = some v ∧ version b = some w ∧ w < v

instance : IsTrans Text Later where
  trans := by
    rintro a b c ⟨v, w, ha, hb, hlt⟩ ⟨w', u, hb', hc, hlt'⟩
    obtain rfl : w = w' := Option.some.inj (hb.symm.trans hb')
    exact ⟨v, u, ha, hc, hlt'.trans hlt⟩

/-- Taking equal neighbours away keeps every element. -/
theorem mem_destutter'_ne (l : List Text) (a x : Text) : x ∈ l.destutter' (· ≠ ·) a ↔ x = a ∨ x ∈ l := by
  induction l generalizing a with
  | nil => simp
  | cons b l ih =>
    by_cases h : a ≠ b
    · rw [List.destutter'_cons_pos (h := h), List.mem_cons, ih, List.mem_cons]
    · rw [List.destutter'_cons_neg (h := h), ih, List.mem_cons, not_not.mp h]
      tauto

theorem mem_destutter_ne (l : List Text) (x : Text) : x ∈ l.destutter (· ≠ ·) ↔ x ∈ l := by
  cases l with
  | nil => simp
  | cons a l => rw [List.destutter_cons', mem_destutter'_ne, List.mem_cons]

theorem mem_recentTags {tags : List Text} {tag : Text} :
    tag ∈ recentTags tags ↔ tag ∈ tags ∧ (version tag).isSome := by
  unfold recentTags
  rw [mem_destutter_ne, List.mem_insertionSort, List.mem_filter]

/-- The recent tags are in strictly descending order. -/
theorem recentTags_sorted (tags : List Text) : (recentTags tags).Pairwise Later := by
  rw [← List.isChain_iff_pairwise, List.isChain_iff_getElem]
  intro i hi
  have hsorted : (recentTags tags).Pairwise before :=
    (List.pairwise_insertionSort before _).sublist (List.destutter_sublist _ _)
  have hle : before (recentTags tags)[i] (recentTags tags)[i + 1] :=
    List.pairwise_iff_getElem.mp hsorted i (i + 1) _ hi (Nat.lt_succ_self i)
  have hne : (recentTags tags)[i] ≠ (recentTags tags)[i + 1] :=
    List.isChain_iff_getElem.mp (List.isChain_destutter _ _) i hi
  obtain ⟨v, hv⟩ := Option.isSome_iff_exists.mp
    (mem_recentTags.1 (List.getElem_mem (l := recentTags tags) (n := i) (by omega))).2
  obtain ⟨w, hw⟩ := Option.isSome_iff_exists.mp (mem_recentTags.1 (List.getElem_mem hi)).2
  refine ⟨v, w, hv, hw, ?_⟩
  unfold before at hle
  rw [hv, hw, Option.getD_some, Option.getD_some] at hle
  refine lt_of_le_of_ne hle fun heq => hne ?_
  exact version_injective hv (heq ▸ hw)

/-! ## The order -/

/-- Among the images of one repository, `newer` is a strict total order on the accepted tags. -/
def StrictOrder (repository : Text) : Prop :=
  (∀ t, newer (image repository t) (image repository t) = false) ∧
    (∀ s t u, newer (image repository s) (image repository t) = true →
      newer (image repository t) (image repository u) = true →
      newer (image repository s) (image repository u) = true) ∧
    ∀ s t, (version s).isSome → (version t).isSome → s ≠ t →
      newer (image repository s) (image repository t) = !newer (image repository t) (image repository s)

theorem newer_irrefl (i : Text) : newer i i = false := by
  rw [Bool.eq_false_iff]
  intro h
  obtain ⟨host, path, tag, nowTag, v, w, hsplit, hsplit', hv, hw, hlt⟩ := newer_iff.1 h
  rw [hsplit] at hsplit'
  cases hsplit'
  rw [hv] at hw
  cases hw
  exact lt_irrefl v hlt

theorem newer_trans {i j k : Text} (hij : newer i j = true) (hjk : newer j k = true) : newer i k = true := by
  obtain ⟨host, path, tag, nowTag, v, w, hi, hj, hv, hw, hlt⟩ := newer_iff.1 hij
  obtain ⟨host', path', tag', oldTag, w', u, hj', hk, hw', hu, hlt'⟩ := newer_iff.1 hjk
  rw [hj] at hj'
  cases hj'
  rw [hw] at hw'
  cases hw'
  exact newer_iff.2 ⟨host, path, tag, oldTag, v, u, hi, hk, hv, hu, hlt'.trans hlt⟩

theorem newer_image {repository host path s t : Text} {v w : List Nat}
    (hrepository : Text.splitOnce "/" repository = some (host, path)) (hpath : path ≠ [])
    (hs : version s = some v) (ht : version t = some w) :
    newer (image repository s) (image repository t) = decide (w < v) := by
  unfold newer
  simp [split_image hrepository hpath hs, split_image hrepository hpath ht, hs, ht]

theorem strictOrder {repository host path : Text}
    (hrepository : Text.splitOnce "/" repository = some (host, path)) (hpath : path ≠ []) :
    StrictOrder repository := by
  refine ⟨fun t => newer_irrefl _, fun s t u => newer_trans, fun s t hs ht hne => ?_⟩
  obtain ⟨v, hv⟩ := Option.isSome_iff_exists.mp hs
  obtain ⟨w, hw⟩ := Option.isSome_iff_exists.mp ht
  rw [newer_image hrepository hpath hv hw, newer_image hrepository hpath hw hv]
  have hvw : v ≠ w := by
    rintro rfl
    exact hne (version_injective hv hw)
  rcases lt_or_gt_of_ne hvw with h | h
  · simp [h, h.le]
  · simp [h, h.le]

/-- **Version tags are canonical and totally ordered**: a version has one tag, `newer` orders the
accepted tags of a repository and says nothing of other images, and the recent tags are the accepted
ones, each once and later ones first. -/
theorem versions_ordered :
    (∀ a b v, version a = some v → version b = some v → a = b) ∧
    (∀ repository host path, Text.splitOnce "/" repository = some (host, path) → path ≠ [] →
      StrictOrder repository) ∧
    (∀ offered current, newer offered current = true → ∃ host path tag nowTag,
      split offered = some (host, path, tag) ∧
      split current = some (host, path, nowTag) ∧ (version tag).isSome ∧ (version nowTag).isSome) ∧
    ∀ tags, (recentTags tags).Pairwise Later ∧ (recentTags tags).Nodup ∧
      ∀ tag, tag ∈ recentTags tags ↔ tag ∈ tags ∧ (version tag).isSome := by
  refine ⟨fun a b v => version_injective, fun repository host path => strictOrder,
    fun offered current h => ?_, fun tags => ?_⟩
  · obtain ⟨host, path, tag, nowTag, v, w, hoffered, hcurrent, hv, hw, -⟩ := newer_iff.mp h
    exact ⟨host, path, tag, nowTag, hoffered, hcurrent, by rw [hv]; rfl, by rw [hw]; rfl⟩
  · refine ⟨recentTags_sorted tags, (recentTags_sorted tags).imp fun h heq => ?_, fun tag => mem_recentTags⟩
    obtain ⟨v, w, hv, hw, hlt⟩ := h
    rw [heq, hw] at hv
    cases hv
    exact lt_irrefl _ hlt

end HomeStack.Versions
