import HomeStack.Vendor

/-! What every run of the vendor script leaves of a home disk: which disk it may
format, and which files and key lines stay. -/

namespace HomeStack.Vendor

open Prog

/-! ## Disks of a guest -/

theorem contents_eq_some {g : Guest} {path : Text} {c : Contents} :
    g.contents path = some c ↔ ∃ d ∈ g.disks, d.path = path ∧ d.contents = c := by
  unfold Guest.contents
  constructor
  · intro h
    obtain ⟨d, hd, hc⟩ := Option.map_eq_some_iff.mp h
    exact ⟨d, List.mem_of_find?_eq_some hd, by simpa using List.find?_some hd, hc⟩
  · rintro ⟨d, hd, rfl, rfl⟩
    have hfind : g.disks.find? (fun e => e.path = d.path) = some d := by
      cases hf : g.disks.find? (fun e => e.path = d.path) with
      | none => exact absurd (List.find?_eq_none.mp hf d hd) (by simp)
      | some e =>
        have he : e.path = d.path := by simpa using List.find?_some hf
        rw [List.inj_on_of_nodup_map g.paths (List.mem_of_find?_eq_some hf) hd he]
    rw [hfind]
    rfl

theorem contents_onDisk (g : Guest) (path device : Text) (f : Contents → Contents) :
    (g.onDisk device f).contents path =
      if path = device then (g.contents path).map f else g.contents path := by
  have h : ((g.disks.map fun d => if d.path = device then { d with contents := f d.contents } else d).find?
      fun d => d.path = path) = (g.disks.find? fun d => d.path = path).map
        fun d => if d.path = device then { d with contents := f d.contents } else d := by
    rw [List.find?_map]
    congr 1
    refine List.find?_congr fun d _ => ?_
    simp only [Function.comp_apply]
    split <;> rfl
  unfold Guest.contents Guest.onDisk
  rw [h]
  cases hf : g.disks.find? fun d => d.path = path with
  | none => simp
  | some d =>
    have hd : d.path = path := by simpa using List.find?_some hf
    by_cases he : path = device <;> simp [he, hd]

/-- Files are changed on the mounted disk only. -/
theorem contents_onHome (g : Guest) (path : Text) (f : Files → Files) :
    (g.onHome f).contents path =
      if g.mounted = some path then (g.contents path).map (Contents.withFiles f) else g.contents path := by
  unfold Guest.onHome
  cases hm : g.mounted with
  | none => simp
  | some device =>
    simp only [contents_onDisk, Option.some.injEq]
    by_cases h : path = device
    · simp [h]
    · rw [if_neg h, if_neg fun e => h e.symm]

@[simp] theorem onHome_mounted (g : Guest) (f : Files → Files) : (g.onHome f).mounted = g.mounted := by
  unfold Guest.onHome
  split <;> rfl

/-! ## What is kept -/

/-- Files that existed stay as they are, and the lines of `authorized_keys`
stay its first lines. -/
structure Files.Kept (fs fs' : Files) : Prop where
  files : ∀ path t, inLostFound path = false → inHostKeys path = false → path ≠ authorizedKeys →
    fs path = some t → fs' path = some t
  keys : ∀ t, fs authorizedKeys = some t →
    ∃ t', fs' authorizedKeys = some t' ∧ Text.records t <+: Text.records t'

namespace Files.Kept

variable {fs fs' fs'' : Files}

theorem trans (h : Files.Kept fs fs') (h' : Files.Kept fs' fs'') : Files.Kept fs fs'' := by
  refine ⟨fun path t h₁ h₂ h₃ ht => h'.files path t h₁ h₂ h₃ (h.files path t h₁ h₂ h₃ ht), fun t ht => ?_⟩
  obtain ⟨u, hu, hp⟩ := h.keys t ht
  obtain ⟨v, hv, hq⟩ := h'.keys u hu
  exact ⟨v, hv, hp.trans hq⟩

/-- Only `lost+found` and the host keys differ. -/
theorem of_agree (h : ∀ path, inLostFound path = false → inHostKeys path = false → fs' path = fs path) :
    Files.Kept fs fs' := by
  refine ⟨fun path t h₁ h₂ _ ht => (h path h₁ h₂).trans ht, fun t ht => ?_⟩
  exact ⟨t, (h authorizedKeys rfl rfl).trans ht, List.prefix_refl _⟩

theorem refl (fs : Files) : Files.Kept fs fs := of_agree fun _ _ _ => rfl

theorem of_empty (h : ∀ path, fs path = none) : Files.Kept fs fs' := by
  refine ⟨fun path t _ _ _ ht => ?_, fun t ht => ?_⟩
  · rw [h] at ht
    cases ht
  · rw [h] at ht
    cases ht

theorem update {text : Text} (h : ∀ t, fs authorizedKeys = some t → Text.records t <+: Text.records text) :
    Files.Kept fs (Function.update fs authorizedKeys (some text)) := by
  refine ⟨fun path t _ _ hne ht => ?_, fun t ht => ⟨text, Function.update_self .., h t ht⟩⟩
  rw [Function.update_of_ne hne]
  exact ht

end Files.Kept

/-- `authorized_keys` does not end in a NUL, which `tail` in a substitution
would hide. -/
def EndsVisibly (fs : Files) : Prop := ∀ t, fs authorizedKeys = some t → t.getLast? ≠ some '\x00'

theorem endsVisibly_update {fs : Files} {text : Text} (h : text.getLast? ≠ some '\x00') :
    EndsVisibly (Function.update fs authorizedKeys (some text)) := by
  intro t ht
  rw [Function.update_self] at ht
  cases ht
  exact h

theorem getLast?_append_lf (t : Text) : (t ++ "\n").getLast? ≠ some '\x00' := by
  rw [show ("\n" : Text) = ['\n'] from rfl, List.getLast?_append]
  intro h
  cases h

/-- What a run has left of a disk: its filesystem and, where the run is one
that keeps keys (`K`), its files. -/
structure Tracked (K : Prop) (c₀ c : Contents) : Prop where
  filesystem : c₀.fstype ≠ [] → c.fstype = c₀.fstype ∧ c.label = c₀.label
  kept : K → Files.Kept c₀.files c.files
  visible : K → EndsVisibly c.files

namespace Tracked

variable {K : Prop} {c₀ c : Contents}

/-- A change of the files. -/
theorem withFiles (h : Tracked K c₀ c) {f : Files → Files} (hk : K → Files.Kept c.files (f c.files))
    (hv : K → EndsVisibly (f c.files)) : Tracked K c₀ (c.withFiles f) := by
  unfold Contents.withFiles
  split
  · exact h
  · exact ⟨h.filesystem, fun k => (h.kept k).trans (hk k), hv⟩

/-- A change outside of what is kept. -/
theorem withFiles_agree (h : Tracked K c₀ c) {f : Files → Files}
    (hf : ∀ path, inLostFound path = false → inHostKeys path = false → f c.files path = c.files path) :
    Tracked K c₀ (c.withFiles f) := by
  refine h.withFiles (fun _ => Files.Kept.of_agree hf) fun k t ht => ?_
  rw [hf authorizedKeys rfl rfl] at ht
  exact h.visible k t ht

/-- A new text of `authorized_keys`. -/
theorem withFiles_update (h : Tracked K c₀ c) {text : Text}
    (hk : K → ∀ t, c.files authorizedKeys = some t → Text.records t <+: Text.records text)
    (hv : K → text.getLast? ≠ some '\x00') :
    Tracked K c₀ (c.withFiles fun files => Function.update files authorizedKeys (some text)) :=
  h.withFiles (fun k => Files.Kept.update (hk k)) fun k => endsVisibly_update (hv k)

/-- A text of `authorized_keys` that has the first lines from the start. -/
theorem withFiles_write (h : Tracked K c₀ c) {text : Text}
    (hk : K → ∀ t, c₀.files authorizedKeys = some t → Text.records t <+: Text.records text)
    (hv : text.getLast? ≠ some '\x00') :
    Tracked K c₀ (c.withFiles fun files => Function.update files authorizedKeys (some text)) := by
  unfold Contents.withFiles
  split
  · exact h
  refine ⟨h.filesystem, fun k => ⟨fun path t h₁ h₂ hne ht => ?_, fun t ht => ?_⟩,
    fun _ => endsVisibly_update hv⟩
  · have hc := (h.kept k).files path t h₁ h₂ hne ht
    simp only [Function.update_of_ne hne]
    exact hc
  · refine ⟨text, ?_, hk k t ht⟩
    simp only [Function.update_self]

/-- A blank disk loses nothing, formatted or not. -/
theorem emptied {new : Contents} (h : Tracked K c₀ c) (hb : c.fstype = [])
    (hempty : ∀ path, new.files path = none) :
    Tracked K c₀ new := by
  have h₀ : c₀.fstype = [] := by
    by_contra hne
    exact hne ((h.filesystem hne).1.symm.trans hb)
  refine ⟨fun hne => absurd h₀ hne, fun _ => Files.Kept.of_empty (c₀.blank h₀), fun _ t ht => ?_⟩
  rw [hempty] at ht
  cases ht

end Tracked

/-! ## One command -/

/-- A disk that may be formatted: by the create flavour, the only one with a
home's serial, and blank. -/
def MayFormat (format : HomeFormat) (g : Guest) (device : Text) : Prop :=
  format = .create ∧ ∃ d ∈ g.disks, d.path = device ∧ isHomeSerial d.serialField = true ∧
    (∀ e ∈ g.disks, isHomeSerial e.serialField = true → e = d) ∧
    d.contents.fstype = [] ∧ d.contents.label = [] ∧ d.contents.children = 0 ∧ d.contents.signatures = []

section Runs

variable (K : Prop) (format : HomeFormat) (torn : Bool) (path : Text) (c₀ : Contents)

def Inv (g : Guest) : Prop := ∃ c, g.contents path = some c ∧ Tracked K c₀ c

/-- What the script has made sure of when it executes a command. -/
def Allowed (g : Guest) : Cmd → Prop
  | .change (.mkfs device _) => MayFormat format g device
  | .change (.writeKeys keys) =>
    '\x00' ∉ keys ∧ (K → ∀ t, c₀.files authorizedKeys = some t →
      torn = false ∧ Text.records t <+: Text.records (keys ++ "\n"))
  | .change (.createKeys dir) => g.keysFile dir = none
  | .change (.appendKey .home key) =>
    '\n' ∉ key ∧ '\x00' ∉ key ∧ (K → g.mounted = some path → Text.Complete ((g.keysFile .home).getD []))
  | _ => True

variable {K format torn path c₀} {g g' : Guest}

theorem Inv.keysFile {c : Contents} (hc : g.contents path = some c) (hm : g.mounted = some path) :
    g.keysFile .home = c.files authorizedKeys := by
  simp [Guest.keysFile, Guest.homeFiles, hm, hc]

theorem Inv.onHome (h : Inv K path c₀ g) {f : Files → Files}
    (hf : g.mounted = some path → ∀ c, g.contents path = some c → Tracked K c₀ c →
      Tracked K c₀ (c.withFiles f)) :
    Inv K path c₀ (g.onHome f) := by
  obtain ⟨c, hc, ht⟩ := h
  by_cases hm : g.mounted = some path
  · refine ⟨c.withFiles f, ?_, hf hm c hc ht⟩
    rw [contents_onHome, if_pos hm, hc]
    rfl
  · refine ⟨c, ?_, ht⟩
    rw [contents_onHome, if_neg hm]
    exact hc

theorem Inv.setKeys (h : Inv K path c₀ g) (dir : Dir) {text : Text}
    (hf : dir = .home → g.mounted = some path → ∀ c, g.contents path = some c → Tracked K c₀ c →
      Tracked K c₀ (c.withFiles fun files => Function.update files authorizedKeys (some text))) :
    Inv K path c₀ (g.setKeys dir text) := by
  cases dir with
  | root => exact h
  | home => exact h.onHome (hf rfl)

/-- **One command** keeps the invariant. -/
theorem Inv.step (h : Inv K path c₀ g) {c : Change} (ha : Allowed K format torn path c₀ g (.change c))
    (hd : c.Done g g') : Inv K path c₀ g' := by
  cases c with
  | mkfs device label =>
    obtain ⟨-, d, hm, rfl, -, -, hb, -⟩ := ha
    cases hd
    obtain ⟨c, hc, ht⟩ := h
    by_cases hp : path = d.path
    · have hdc : g.contents path = some d.contents := contents_eq_some.2 ⟨d, hm, hp.symm, rfl⟩
      cases hc.symm.trans hdc
      refine ⟨d.contents.formatted label, ?_, ht.emptied hb fun _ => rfl⟩
      rw [contents_onDisk, if_pos hp, hc]
      rfl
    · refine ⟨c, ?_, ht⟩
      rw [contents_onDisk, if_neg hp]
      exact hc
  | disableMountUnit =>
    rcases hd with rfl | rfl
    · exact h
    · exact h
  | mount label =>
    obtain ⟨d, -, -, -, rfl⟩ := hd
    exact h
  | removeLostFound =>
    cases hd
    refine h.onHome fun _ c _ ht => ht.withFiles_agree fun p h₁ _ => ?_
    simp [h₁]
  | removeHostKeys =>
    cases hd
    refine h.onHome fun _ c _ ht => ht.withFiles_agree fun p _ h₂ => ?_
    simp [h₂]
  | saveHostKeys =>
    obtain ⟨new, rfl⟩ := hd
    refine h.onHome fun _ c _ ht => ht.withFiles_agree fun p _ h₂ => ?_
    simp [h₂]
  | writeKeys keys =>
    cases hd
    exact h.setKeys .home fun _ _ c _ ht => ht.withFiles_write (fun k t htext => (ha.2 k t htext).2)
      (getLast?_append_lf keys)
  | createKeys dir =>
    cases hd
    refine h.setKeys dir fun hdir hm c hc ht => ht.withFiles_update (fun _ t hkeys => ?_) (fun _ => by simp)
    subst hdir
    have hnone : g.keysFile .home = none := ha
    rw [Inv.keysFile hc hm, hkeys] at hnone
    cases hnone
  | endLine dir =>
    cases hd
    refine h.setKeys dir fun hdir hm c hc ht => ht.withFiles_update (fun _ t hkeys => ?_) fun _ =>
      getLast?_append_lf _
    subst hdir
    rw [Inv.keysFile hc hm, hkeys, Option.getD_some]
    exact Text.records_prefix_append_lf t
  | appendKey dir key =>
    cases hd
    have hlast : ((g.keysFile dir).getD [] ++ (key ++ "\n")).getLast? ≠ some '\x00' := by
      rw [← List.append_assoc]
      exact getLast?_append_lf _
    refine h.setKeys dir fun hdir hm c hc ht => ht.withFiles_update (fun k t hkeys => ?_) fun _ => hlast
    subst hdir
    obtain ⟨hkey, -, hcomplete⟩ := ha
    have hcomplete := hcomplete k hm
    rw [Inv.keysFile hc hm, hkeys, Option.getD_some] at hcomplete ⊢
    rw [show ("\n" : Text) = ['\n'] from rfl, Text.records_append_line hcomplete hkey]
    exact List.prefix_append _ _
  | _ =>
    cases hd
    exact h

theorem getLast?_prefix {t part : Text} {key : Text} (hpart : part <+: key ++ "\n") (hkey : '\x00' ∉ key)
    (ht : t.getLast? ≠ some '\x00') : (t ++ part).getLast? ≠ some '\x00' := by
  intro h
  cases part with
  | nil =>
    rw [List.append_nil] at h
    exact ht h
  | cons c part =>
    rw [List.getLast?_append_of_ne_nil _ (List.cons_ne_nil c part)] at h
    rcases List.mem_append.mp (hpart.subset (List.mem_of_getLast? h)) with hmem | hmem
    · exact hkey hmem
    · exact absurd hmem (by decide)

/-- A command that breaks off keeps it too. -/
theorem Inv.broken (h : Inv K path c₀ g) {c : Change} (ha : Allowed K format torn path c₀ g (.change c))
    (hb : c.Broken torn g g') : Inv K path c₀ g' := by
  cases c with
  | mkfs device label =>
    obtain ⟨-, d, hm, rfl, -, -, hblank, -⟩ := ha
    obtain ⟨broken, hempty, rfl⟩ := hb
    obtain ⟨c, hc, ht⟩ := h
    by_cases hp : path = d.path
    · have hdc : g.contents path = some d.contents := contents_eq_some.2 ⟨d, hm, hp.symm, rfl⟩
      cases hc.symm.trans hdc
      refine ⟨broken, ?_, ht.emptied hblank hempty⟩
      rw [contents_onDisk, if_pos hp, hc]
      rfl
    · refine ⟨c, ?_, ht⟩
      rw [contents_onDisk, if_neg hp]
      exact hc
  | removeLostFound =>
    obtain ⟨rest, rfl⟩ := hb
    refine h.onHome fun _ c _ ht => ht.withFiles_agree fun p h₁ _ => ?_
    simp [h₁]
  | removeHostKeys | saveHostKeys =>
    obtain ⟨rest, rfl⟩ := hb
    refine h.onHome fun _ c _ ht => ht.withFiles_agree fun p _ h₂ => ?_
    simp [h₂]
  | writeKeys keys =>
    obtain ⟨htorn, part, hpart, rfl⟩ := hb
    refine h.setKeys .home fun _ _ c _ ht => ht.withFiles_write (fun k t htext => ?_) ?_
    · have hwhole := (ha.2 k t htext).1
      rw [htorn] at hwhole
      cases hwhole
    · exact getLast?_prefix (t := []) hpart ha.1 nofun
  | appendKey dir key =>
    obtain ⟨part, hpart, rfl⟩ := hb
    refine h.setKeys dir fun hdir hm c hc ht => ?_
    subst hdir
    obtain ⟨-, hnul, hcomplete⟩ := ha
    rw [Inv.keysFile hc hm] at hcomplete ⊢
    refine ht.withFiles_update (fun k t hkeys => ?_) fun k => getLast?_prefix hpart hnul ?_
    · have hended := hcomplete k hm
      rw [hkeys, Option.getD_some] at hended ⊢
      exact Text.records_prefix_append hended part
    · cases hkeys : c.files authorizedKeys with
      | none => exact nofun
      | some t => exact ht.visible k t hkeys
  | _ => exact hb.elim

theorem Inv.failed (h : Inv K path c₀ g) {c : Change} (ha : Allowed K format torn path c₀ g (.change c))
    (hf : g' = g ∨ c.Done g g' ∨ c.Broken torn g g') : Inv K path c₀ g' := by
  rcases hf with rfl | hd | hb
  · exact h
  · exact h.step ha hd
  · exact h.broken ha hb

/-! ## The script -/

variable (K format torn path c₀) in
/-- The guard of every command. -/
def Guard (g : Guest) (q : Cmd) : Prop := Inv K path c₀ g ∧ Allowed K format torn path c₀ g q

variable (K format torn path c₀) in
/-- All runs from `g` are guarded and end in `ok`, or fail with the invariant. -/
abbrev Spec {α : Type} (p : Script α) (g : Guest) (ok : α → Guest → Prop) : Prop :=
  wpe (guest torn) (Guard K format torn path c₀) p g ok fun _ t => Inv K path c₀ t

theorem Spec.bind {α β : Type} {x : Script α} {f : α → Script β} {ok : β → Guest → Prop}
    (h : Spec K format torn path c₀ x g fun a t => Spec K format torn path c₀ (f a) t ok) :
    Spec K format torn path c₀ (x >>= f) g ok :=
  wpe_bind.mpr h

theorem ask_spec (h : Inv K path c₀ g) {a : Ask} {ok : (Cmd.ask a).Answer → Guest → Prop}
    (hok : ∀ r, a.Reports g r → ok r g) : Spec K format torn path c₀ (ask a) g ok := by
  refine wpe_lift (wp_call ⟨h, trivial⟩ fun r s' hr => ?_)
  obtain ⟨hr, rfl⟩ := hr
  exact hok r hr

theorem attempt_spec (h : Inv K path c₀ g) {c : Change} (ha : Allowed K format torn path c₀ g (.change c))
    {ok : Bool → Guest → Prop}
    (hok : ∀ b g', Inv K path c₀ g' → (b = true → c.Done g g') → ok b g') :
    Spec K format torn path c₀ (attempt c) g ok := by
  refine wpe_lift (wp_call ⟨h, ha⟩ fun r s' hr => ?_)
  cases r with
  | true => exact hok true s' (h.step ha hr) fun _ => hr
  | false => exact hok false s' (h.failed ha hr) nofun

theorem exec_spec (h : Inv K path c₀ g) {c : Change} (ha : Allowed K format torn path c₀ g (.change c))
    {ok : Unit → Guest → Prop} (hok : ∀ g', Inv K path c₀ g' → c.Done g g' → ok () g') :
    Spec K format torn path c₀ (exec c) g ok := by
  refine Spec.bind (attempt_spec h ha fun b g' hi hd => ?_)
  cases b with
  | true => exact hok g' hi (hd rfl)
  | false => exact hi

/-- Programs of commands that are always allowed. -/
theorem spec_of_asks (h : Inv K path c₀ g) {α : Type} {p : Script α}
    (hp : p.run.Asks fun q => ∀ g, Allowed K format torn path c₀ g q) {ok : α → Guest → Prop}
    (hok : ∀ a g', Inv K path c₀ g' → ok a g') : Spec K format torn path c₀ p g ok := by
  refine wpe_mono (wpe_inv hp h ?_ fun s q hq hs => ⟨hs, hq s⟩) (fun a t ht => hok a t ht) fun _ t ht => ht
  intro s q r s' hq hs hn
  cases q with
  | ask a => exact hn.2 ▸ hs
  | change c =>
    cases r with
    | true => exact hs.step (hq s) hn
    | false => exact hs.failed (hq s) hn

theorem asks_exec {P : Cmd → Prop} {c : Change} (h : P (.change c)) : (exec c).run.Asks P := by
  refine asks_bind (asks_lift ⟨h, fun _ => trivial⟩) fun b => ?_
  cases b <;> trivial

theorem asks_ask {P : Cmd → Prop} {a : Ask} (h : P (.ask a)) : (ask a).run.Asks P :=
  asks_lift ⟨h, fun _ => trivial⟩

theorem asks_mountHome {label : Text} :
    (mountHome label).run.Asks fun q => ∀ g, Allowed K format torn path c₀ g q := by
  unfold mountHome
  refine asks_bind (asks_lift ⟨fun _ => trivial, fun _ => trivial⟩) fun _ => ?_
  refine asks_bind (asks_exec fun _ => trivial) fun _ => ?_
  refine asks_bind (asks_exec fun _ => trivial) fun _ => ?_
  refine asks_bind (asks_exec fun _ => trivial) fun _ => ?_
  refine asks_bind (asks_exec fun _ => trivial) fun _ => ?_
  refine asks_bind (asks_exec fun _ => trivial) fun _ => ?_
  refine asks_bind (asks_ask fun _ => trivial) fun b => ?_
  cases b
  · exact asks_exec fun _ => trivial
  · trivial

theorem asks_initHome {keys : Text} (hnul : '\x00' ∉ keys)
    (hk : K → ∀ t, c₀.files authorizedKeys = some t → torn = false ∧
      Text.records t <+: Text.records (keys ++ "\n")) :
    (initHome keys).run.Asks fun q => ∀ g, Allowed K format torn path c₀ g q := by
  unfold initHome
  refine asks_bind (asks_exec fun _ => trivial) fun _ => ?_
  refine asks_bind (asks_exec fun _ => trivial) fun _ => ?_
  refine asks_bind (asks_exec fun _ => trivial) fun _ => ?_
  refine asks_bind (asks_exec fun _ => trivial) fun _ => ?_
  refine asks_bind (asks_exec fun _ => ⟨hnul, hk⟩) fun _ => ?_
  refine asks_bind (asks_exec fun _ => trivial) fun _ => ?_
  exact asks_exec fun _ => trivial

theorem asks_hostKeys : hostKeys.run.Asks fun q => ∀ g, Allowed K format torn path c₀ g q := by
  unfold hostKeys
  refine asks_bind (asks_ask fun _ => trivial) fun b => ?_
  cases b
  · refine asks_bind (asks_exec fun _ => trivial) fun _ => ?_
    refine asks_bind (asks_exec fun _ => trivial) fun _ => ?_
    exact asks_exec fun _ => trivial
  · refine asks_bind (asks_exec fun _ => trivial) fun _ => ?_
    refine asks_bind (asks_exec fun _ => trivial) fun _ => ?_
    exact asks_exec fun _ => trivial

theorem prepareDisk_spec (h : Inv K path c₀ g) {d : Disk} (hd : d ∈ g.disks)
    (hserial : isHomeSerial d.serialField = true)
    (hone : ∀ e ∈ g.disks, isHomeSerial e.serialField = true → e = d) (label : Text) :
    Spec K format torn path c₀ (prepareDisk format d.path label d.contents.fstype d.contents.label) g
      fun _ t => Inv K path c₀ t := by
  have hc : g.contents d.path = some d.contents := contents_eq_some.2 ⟨d, hd, rfl, rfl⟩
  unfold prepareDisk
  split
  · exact h
  split
  next hblank =>
    split
    · exact h
    next hformat =>
      refine Spec.bind (ask_spec h fun types htypes => ?_)
      split
      · exact h
      next hone' =>
        refine Spec.bind (ask_spec h fun signatures hsignatures => ?_)
        split
        · exact h
        next hnone =>
          have hchildren : d.contents.children = 0 := by
            have htypes : types = d.contents.children + 1 := by
              rw [htypes, hc]
              rfl
            have htypes' : types = (1 : Nat) := not_not.mp hone'
            exact Nat.succ.inj (htypes.symm.trans htypes')
          have hsignatures : d.contents.signatures = [] := by
            have : signatures = d.contents.signatures := by
              rw [hsignatures, hc]
              rfl
            rw [← this]
            simpa using hnone
          refine exec_spec h ?_ fun g' hi _ => hi
          exact ⟨by simpa using hformat, d, hd, rfl, hserial, hone, hblank.1,
            hblank.2, hchildren, hsignatures⟩
  · exact h

variable (K path) in
/-- The lines of the file in this directory are ended, where that matters. -/
def Ended (dir : Dir) (g : Guest) : Prop :=
  dir = .home → K → g.mounted = some path → Text.Complete ((g.keysFile .home).getD [])

theorem Ended.setKeys {dir : Dir} {text : Text} (h : Inv K path c₀ g) (ht : Text.Complete text) :
    Ended K path dir (g.setKeys dir text) := by
  rintro rfl k hm
  have hm' : g.mounted = some path := by simpa [Guest.setKeys] using hm
  obtain ⟨c, hc, -⟩ := h
  have hc' : (g.setKeys .home text).contents path =
      some (c.withFiles fun files => Function.update files authorizedKeys (some text)) := by
    rw [Guest.setKeys, contents_onHome, if_pos hm', hc]
    rfl
  rw [Inv.keysFile hc' hm]
  unfold Contents.withFiles
  split
  next hb =>
    rw [c.blank hb]
    exact Or.inl rfl
  · simpa using ht

theorem ensureKeyIn_spec (h : Inv K path c₀ g) {dir : Dir} (he : Ended K path dir g) {key : Text}
    (hkey : '\n' ∉ key ∧ '\x00' ∉ key) :
    Spec K format torn path c₀ (ensureKeyIn dir key) g fun _ t => Inv K path c₀ t ∧ Ended K path dir t := by
  unfold ensureKeyIn
  split
  · exact ⟨h, he⟩
  refine Spec.bind (ask_spec h fun found _ => ?_)
  cases found with
  | true => exact ⟨h, he⟩
  | false =>
    have ha : Allowed K format torn path c₀ g (.change (.appendKey dir key)) := by
      cases dir with
      | root => trivial
      | home => exact ⟨hkey.1, hkey.2, fun k hm => he rfl k hm⟩
    refine exec_spec h ha fun g' hi hd => ⟨hi, ?_⟩
    cases hd
    refine Ended.setKeys h ?_
    rw [← List.append_assoc]
    exact Text.complete_append_lf _

theorem ensureKeys_spec (h : Inv K path c₀ g) {dir : Dir} (he : Ended K path dir g) {keys : List Text}
    (hkeys : ∀ key ∈ keys, '\n' ∉ key ∧ '\x00' ∉ key) :
    Spec K format torn path c₀ (keys.forM (ensureKeyIn dir)) g fun _ t => Inv K path c₀ t := by
  induction keys generalizing g with
  | nil => exact h
  | cons key keys ih =>
    refine Spec.bind (wpe_mono (ensureKeyIn_spec h he (hkeys key List.mem_cons_self)) ?_ fun _ _ ht => ht)
    rintro _ t ⟨hi, he⟩
    exact ih hi he fun k hk => hkeys k (List.mem_cons_of_mem _ hk)

/-- A file that `tail` shows as ended is ended. -/
theorem Ended.of_tail (h : Inv K path c₀ g) {dir : Dir} (ht : lastByte ((g.keysFile dir).getD []) = []) :
    Ended K path dir g := by
  rintro rfl k hm
  obtain ⟨c, hc, htr⟩ := h
  have hkeys := Inv.keysFile hc hm
  cases hf : g.keysFile .home with
  | none => exact Or.inl rfl
  | some t =>
    rw [hf] at ht hkeys
    exact complete_of_lastByte (htr.visible k t hkeys.symm) ht

theorem ensureKeysIn_spec (h : Inv K path c₀ g) {keys : Text} (hnul : '\x00' ∉ keys) (dir : Dir) :
    Spec K format torn path c₀ (ensureKeysIn keys dir) g fun _ t => Inv K path c₀ t := by
  have hloop : ∀ t, Inv K path c₀ t → Ended K path dir t →
      Spec K format torn path c₀ ((keys.splitOn '\n').forM (ensureKeyIn dir)) t fun _ t =>
        Inv K path c₀ t := by
    intro t ht he
    refine ensureKeys_spec ht he fun key hk => ⟨fun hlf => ?_, fun hmem => ?_⟩
    · have hsep := (Text.mem_of_mem_splitOnP hk _ hlf).2
      simp at hsep
    · exact hnul (Text.mem_of_mem_splitOnP hk _ hmem).1
  have htail : ∀ t, Inv K path c₀ t → Spec K format torn path c₀ (do
      if (← ask (.tail dir)) ≠ [] then exec (.endLine dir)
      (keys.splitOn '\n').forM (ensureKeyIn dir)) t fun _ t => Inv K path c₀ t := by
    intro t ht
    refine Spec.bind (ask_spec ht fun last hlast => ?_)
    split
    · refine Spec.bind (exec_spec (c := .endLine dir) ht trivial fun t' ht' hd => ?_)
      cases hd
      exact hloop _ ht' (Ended.setKeys ht (Text.complete_append_lf _))
    next hnil => exact hloop t ht (Ended.of_tail ht (hlast ▸ not_not.mp hnil))
  unfold ensureKeysIn
  refine Spec.bind (ask_spec h fun isDir _ => ?_)
  cases isDir with
  | false => exact h
  | true =>
    refine Spec.bind (ask_spec h fun owner _ => Spec.bind ?_)
    cases owner with
    | none => exact h
    | some owner =>
      refine wpe_pure (Spec.bind (ask_spec h fun group _ => Spec.bind ?_))
      cases group with
      | none => exact h
      | some group =>
        refine wpe_pure (Spec.bind (exec_spec (c := .installSsh dir) h trivial fun t ht _ =>
          Spec.bind (ask_spec ht fun isFile hfile => ?_)))
        cases isFile with
        | true => exact htail t ht
        | false =>
          have hnone : t.keysFile dir = none := by simpa using hfile.symm
          exact Spec.bind (exec_spec (c := .createKeys dir) ht hnone fun t' ht' _ => htail t' ht')

end Runs

/-- Runs that keep the key lines of a disk: its `authorized_keys` does not end
in a NUL and the create flavour, which writes the file anew, writes it whole and
has all its lines first among the keys of user-data. -/
def KeepsKeys (format : HomeFormat) (torn : Bool) (userdata : Option Text) (c : Contents) : Prop :=
  ∀ t, c.files authorizedKeys = some t → t.getLast? ≠ some '\x00' ∧
    (format = .create → ∀ keys ∈ userdata,
      torn = false ∧ Text.records t <+: Text.records (substitution keys ++ "\n"))

theorem nul_not_mem_substitution (output : Text) : '\x00' ∉ substitution output := by
  intro h
  have hmem := (List.rdropWhile_prefix _ _).subset h
  simp at hmem

theorem homeDisks_rows (disks : List Disk) :
    homeDisks (disks.map fun d => d.path :: awkFields d.serial) =
      (disks.filter fun d => isHomeSerial d.serialField).map fun d => (d.path, d.serialField) := by
  have hfield : ∀ d : Disk, (d.path :: awkFields d.serial).getD 1 [] = d.serialField := by
    intro d
    rw [Disk.serialField]
    cases awkFields d.serial <;> rfl
  simp only [homeDisks, List.filter_map, List.map_map]
  congr 1
  · funext d
    simp only [Function.comp_apply, hfield]
    rfl
  · refine List.filter_congr fun d _ => ?_
    simp only [Function.comp_apply, hfield]

/-- The disk that the script finds. -/
theorem homeDisks_eq {disks : List Disk} {device label : Text}
    (h : homeDisks (disks.map fun d => d.path :: awkFields d.serial) = [(device, label)]) :
    ∃ d ∈ disks, d.path = device ∧ isHomeSerial d.serialField = true ∧
      ∀ e ∈ disks, isHomeSerial e.serialField = true → e = d := by
  rw [homeDisks_rows] at h
  obtain ⟨d, hd, hpair⟩ := List.map_eq_singleton_iff.mp h
  have hmem : ∀ e, e ∈ disks ∧ isHomeSerial e.serialField = true ↔ e = d := by
    intro e
    rw [← List.mem_filter (p := fun d : Disk => isHomeSerial d.serialField), hd, List.mem_singleton]
  obtain ⟨hin, hserial⟩ := (hmem d).mpr rfl
  exact ⟨d, hin, congrArg Prod.fst hpair, hserial, fun e he hs => (hmem e).mp ⟨he, hs⟩⟩

section Runs

variable {format : HomeFormat} {torn : Bool} {path : Text} {c₀ : Contents} {g : Guest}

theorem setupHome_spec {K : Prop} (hK : K → KeepsKeys format torn g.userdata c₀) (h : Inv K path c₀ g)
    {d : Disk} (hd : d ∈ g.disks) (hserial : isHomeSerial d.serialField = true)
    (hone : ∀ e ∈ g.disks, isHomeSerial e.serialField = true → e = d) (label : Text) :
    Spec K format torn path c₀ (setupHome format d.path label) g fun _ t => Inv K path c₀ t := by
  have hc : g.contents d.path = some d.contents := contents_eq_some.2 ⟨d, hd, rfl, rfl⟩
  have hrest : ∀ (keys : Text), '\x00' ∉ keys → ∀ t : Guest, Inv K path c₀ t → Spec K format torn path c₀ (do
      ensureKeysIn keys .root
      ensureKeysIn keys .home
      hostKeys
      if ← ask .herdrService then exec .enableLinger) t fun _ t => Inv K path c₀ t := by
    intro keys hnul t ht
    refine Spec.bind (wpe_mono (ensureKeysIn_spec ht hnul .root) ?_ fun _ _ ht => ht)
    intro _ t ht
    refine Spec.bind (wpe_mono (ensureKeysIn_spec ht hnul .home) ?_ fun _ _ ht => ht)
    intro _ t ht
    refine Spec.bind (spec_of_asks ht asks_hostKeys fun _ t ht => Spec.bind (ask_spec ht fun b _ => ?_))
    cases b with
    | true => exact exec_spec (c := .enableLinger) ht trivial fun t ht _ => ht
    | false => exact ht
  unfold setupHome
  refine Spec.bind (ask_spec h fun fstype htype => Spec.bind (ask_spec h fun fslabel hlabel => ?_))
  have htype : fstype = d.contents.fstype := by
    rw [htype, hc]
    rfl
  have hlabel : fslabel = d.contents.label := by
    rw [hlabel, hc]
    rfl
  subst htype hlabel
  refine Spec.bind (ask_spec h fun answer hanswer => Spec.bind ?_)
  cases answer with
  | none => exact h
  | some answer =>
    refine wpe_pure ?_
    by_cases hempty : format = .create ∧ substitution answer = []
    · simp only [if_pos hempty]
      exact h
    simp only [if_neg hempty]
    refine Spec.bind (wpe_mono (prepareDisk_spec h hd hserial hone label) ?_ fun _ _ ht => ht)
    intro _ t ht
    refine Spec.bind (spec_of_asks ht asks_mountHome fun _ t ht => ?_)
    split
    next hcreate =>
      have hkeys : K → ∀ text, c₀.files authorizedKeys = some text →
          torn = false ∧ Text.records text <+: Text.records (substitution answer ++ "\n") := by
        intro k text htext
        exact (hK k text htext).2 hcreate answer (by rw [← hanswer]; rfl)
      exact Spec.bind (spec_of_asks ht (asks_initHome (nul_not_mem_substitution _) hkeys) fun _ t ht =>
        hrest _ (nul_not_mem_substitution _) t ht)
    · exact hrest _ (nul_not_mem_substitution _) t ht

/-- **Every run** of the script: each command is guarded. -/
theorem runcmd_spec {K : Prop} (hK : K → KeepsKeys format torn g.userdata c₀) (h : Inv K path c₀ g) :
    Spec K format torn path c₀ (runcmd format) g fun _ t => Inv K path c₀ t := by
  unfold runcmd
  refine Spec.bind (ask_spec h fun accounts _ => ?_)
  split
  · exact h
  refine Spec.bind (ask_spec h fun rows hrows => ?_)
  have hrows : rows = g.disks.map fun d => d.path :: awkFields d.serial := hrows
  subst hrows
  split
  next device label hone =>
    obtain ⟨d, hd, rfl, hserial, hunique⟩ := homeDisks_eq hone
    exact setupHome_spec hK h hd hserial hunique label
  · exact h

end Runs

/-! ## Boots of one home -/

/-- One run of the script, stopped anywhere or ended, in a guest that has the
home disk at `path`. -/
structure Boot where
  format : HomeFormat
  /-- The write of the keys may break off. -/
  torn : Bool
  before : Guest
  after : Guest
  log : List (Guest × Cmd)
  outcome : Option (Except Nat Unit)
  run : Exec (logged (guest torn)) (runcmd format).run (before, []) outcome (after, log)
  path : Text
  home : Contents
  home' : Contents
  found : before.contents path = some home
  left : after.contents path = some home'

/-- The script came to its end. -/
def Boot.Completed (b : Boot) : Prop := b.outcome = some (.ok ())

/-- The boots of one home disk, newest first. Between them the home is in use,
its files change but not its filesystem, and the rest of the guest may be
another one. -/
inductive Life : List Boot → Contents → Prop
  | new (c : Contents) : Life [] c
  | use {boots : List Boot} {c c' : Contents} :
      Life boots c → c'.fstype = c.fstype → c'.label = c.label → Life boots c'
  | boot {boots : List Boot} (b : Boot) : Life boots b.home → Life (b :: boots) b.home'

/-- What one boot does to the disk, and what its commands were sure of. -/
theorem Boot.tracked (b : Boot) {K : Prop} (hK : K → KeepsKeys b.format b.torn b.before.userdata b.home) :
    Tracked K b.home b.home' ∧ ∀ e ∈ b.log, Guard K b.format b.torn b.path b.home e.1 e.2 := by
  have hinv : Inv K b.path b.home b.before :=
    ⟨b.home, b.found, fun _ => ⟨rfl, rfl⟩, fun _ => Files.Kept.refl _, fun k t ht => (hK k t ht).1⟩
  have hspec := runcmd_spec hK hinv
  obtain ⟨hrun, hall⟩ := wp_logged hspec b.run
  have hend : Inv K b.path b.home b.after := by
    cases ho : b.outcome with
    | none =>
      rw [ho] at hrun
      rcases wp_stop hspec hrun with ⟨q, hq, -⟩ | ⟨r, hr⟩
      · exact hq
      · cases r <;> exact hr
    | some r =>
      rw [ho] at hrun
      have hr := wp_done hspec hrun
      cases r <;> exact hr
  obtain ⟨c, hc, ht⟩ := hend
  cases hc.symm.trans b.left
  refine ⟨ht, fun e he => ?_⟩
  rcases hall e he with he | he
  · cases he
  · exact he

theorem Boot.mayFormat (b : Boot) {g : Guest} {device label : Text}
    (h : (g, Cmd.change (.mkfs device label)) ∈ b.log) : MayFormat b.format g device :=
  ((b.tracked (K := False) False.elim).2 _ h).2

/-- A disk with a filesystem is not formatted. -/
theorem Boot.not_formatted (b : Boot) (hf : b.home.fstype ≠ []) {g : Guest} {device label : Text}
    (h : (g, Cmd.change (.mkfs device label)) ∈ b.log) : device ≠ b.path := by
  rintro rfl
  obtain ⟨⟨c, hc, ht⟩, -, d, hd, hp, -, -, hb, -⟩ := (b.tracked (K := False) False.elim).2 _ h
  have hdc : g.contents b.path = some d.contents := contents_eq_some.2 ⟨d, hd, hp, rfl⟩
  cases hc.symm.trans hdc
  exact hf ((ht.filesystem hf).1.symm.trans hb)

theorem Boot.filesystem (b : Boot) (h : b.home.fstype ≠ []) :
    b.home'.fstype = b.home.fstype ∧ b.home'.label = b.home.label :=
  (b.tracked (K := False) False.elim).1.filesystem h

/-- A filesystem stays for the life of its disk. -/
theorem Life.filesystem {boots newer older : List Boot} {b : Boot} {c : Contents} (h : Life boots c)
    (hb : boots = newer ++ b :: older) (hf : b.home.fstype ≠ []) :
    c.fstype = b.home.fstype ∧ c.label = b.home.label := by
  induction h generalizing newer with
  | new c => simp at hb
  | use _ hfs hl ih =>
    obtain ⟨h₁, h₂⟩ := ih hb
    exact ⟨hfs.trans h₁, hl.trans h₂⟩
  | boot last hlife ih =>
    cases newer with
    | nil =>
      cases hb
      exact Boot.filesystem _ hf
    | cons first newer =>
      cases hb
      obtain ⟨h₁, h₂⟩ := ih rfl
      obtain ⟨h₃, h₄⟩ := Boot.filesystem _ (by rw [h₁]; exact hf)
      exact ⟨h₃.trans h₁, h₄.trans h₂⟩

/-- **Boots never destroy a home**, as long as no boot after a completed one is
of the create flavour with other keys than the file's or breaks off as it writes
them. -/
theorem boots_keep_home {boots : List Boot} {c : Contents} (h : Life boots c)
    (hk : ∀ newer b older, boots = newer ++ b :: older → (∃ e ∈ older, Boot.Completed e) →
      KeepsKeys b.format b.torn b.before.userdata b.home) :
    ∀ newer b older, boots = newer ++ b :: older →
      (∀ g device label, (g, Cmd.change (.mkfs device label)) ∈ b.log → MayFormat b.format g device) ∧
      (b.home.fstype ≠ [] →
        (∀ g device label, (g, Cmd.change (.mkfs device label)) ∈ b.log → device ≠ b.path) ∧
          c.fstype = b.home.fstype ∧ c.label = b.home.label) ∧
      ((∃ e ∈ older, Boot.Completed e) → Files.Kept b.home.files b.home'.files) := by
  intro newer b older hb
  refine ⟨fun g device label hm => b.mayFormat hm, fun hf => ?_, fun hdone => ?_⟩
  · exact ⟨fun g device label hm => b.not_formatted hf hm, h.filesystem hb hf⟩
  · exact (b.tracked fun _ => hk newer b older hb hdone).1.kept trivial

/-! ## A home with two keys -/

/-- Reports of a guest whose user owns the home and whose host keys are not
saved yet. -/
def Guest.report (g : Guest) : (a : Ask) → (Cmd.ask a).Answer
  | .accounts => g.accounts
  | .lsblkSerials => g.disks.map fun d => d.path :: awkFields d.serial
  | .blkidType device => ((g.contents device).map Contents.fstype).getD []
  | .blkidLabel device => ((g.contents device).map Contents.label).getD []
  | .userdataKeys => g.userdata
  | .lsblkTypes device => ((g.contents device).map fun c => c.children + 1).getD 0
  | .wipefs device => ((g.contents device).map Contents.signatures).getD []
  | .mountpoint => g.mounted.isSome
  | .isFile dir => (g.keysFile dir).isSome
  | .tail dir => lastByte ((g.keysFile dir).getD [])
  | .awk dir id => awkHas id ((g.keysFile dir).getD [])
  | .isDir _ => true
  | .statOwner _ | .statGroup _ => some "user"
  | .hostKeysSaved | .herdrService => false

def Disk.mountable (label : Text) (d : Disk) : Bool :=
  decide (d.contents.fstype = "ext4".toList) && decide (d.contents.label = label)

/-- Commands that all succeed where they can. -/
def Guest.execute (g : Guest) : Change → Bool × Guest
  | .mkfs device label => (true, g.onDisk device (Contents.formatted label))
  | .disableMountUnit => (true, { g with mounted := none })
  | .mount label =>
    match g.disks.find? (Disk.mountable label) with
    | some d => (true, { g with mounted := some d.path })
    | none => (false, g)
  | .removeLostFound => (true, g.onHome fun files path => if inLostFound path then none else files path)
  | .writeKeys keys => (true, g.setKeys .home (keys ++ "\n"))
  | .createKeys dir => (true, g.setKeys dir [])
  | .endLine dir => (true, g.setKeys dir ((g.keysFile dir).getD [] ++ "\n"))
  | .appendKey dir key => (true, g.setKeys dir ((g.keysFile dir).getD [] ++ (key ++ "\n")))
  | .removeHostKeys => (true, g.onHome fun files path => if inHostKeys path then none else files path)
  | .saveHostKeys => (true, g.onHome fun files path => if inHostKeys path then none else files path)
  | .removeMountUnit | .makeHome | .cleanFstab | .addFstab _ | .daemonReload | .chownHome | .chmodHome
  | .installSsh _ | .chownKeys | .chmodKeys | .removeRootHostKeys | .restoreHostKeys | .restartSsh
  | .installHostKeys | .enableLinger => (true, g)

def Guest.respond (s : Guest × List (Guest × Cmd)) : (q : Cmd) → q.Answer × (Guest × List (Guest × Cmd))
  | .ask a => (s.1.report a, s.1, (s.1, .ask a) :: s.2)
  | .change c => ((s.1.execute c).1, (s.1.execute c).2, (s.1, .change c) :: s.2)

theorem Guest.respond_next (s : Guest × List (Guest × Cmd)) (q : Cmd) :
    (logged (guest false)).next s q (Guest.respond s q).1 (Guest.respond s q).2 := by
  refine ⟨?_, by cases q <;> rfl⟩
  cases q with
  | ask a => cases a <;> exact ⟨by trivial, rfl⟩
  | change c =>
    cases c with
    | disableMountUnit => exact Or.inr rfl
    | mount label =>
      simp only [Guest.respond, Guest.execute]
      cases hf : s.1.disks.find? (Disk.mountable label) with
      | none => exact Or.inl rfl
      | some d =>
        have hd := List.find?_some hf
        simp only [Disk.mountable, Bool.and_eq_true, decide_eq_true_eq] at hd
        exact ⟨d, List.mem_of_find?_eq_some hf, hd.1, hd.2, rfl⟩
    | saveHostKeys => exact ⟨fun _ => none, rfl⟩
    | _ => rfl

/-- The run of the script in a guest that answers so. -/
def played (format : HomeFormat) (g : Guest) : Except Nat Unit × (Guest × List (Guest × Cmd)) :=
  play Guest.respond (runcmd format).run (g, [])

theorem exists_boot (format : HomeFormat) {g : Guest} {path : Text} {home : Contents}
    (found : g.contents path = some home) :
    ∃ b : Boot, b.format = format ∧ b.before = g ∧ b.home = home ∧ b.outcome = some (played format g).1 ∧
      (played format g).2.1.contents path = some b.home' := by
  have hrun := exec_play Guest.respond_next (runcmd format).run (g, [])
  have hinv : Inv False path home g := ⟨home, found, fun _ => ⟨rfl, rfl⟩, False.elim, False.elim⟩
  have hspec : Spec False format false path home (runcmd format) g fun _ t => Inv False path home t :=
    runcmd_spec False.elim hinv
  have hend : Inv False path home (played format g).2.1 := by
    have hr := wp_done hspec (wp_logged hspec hrun).1
    revert hr
    cases (play Guest.respond (runcmd format).run (g, [])).1 <;> exact fun hr => hr
  obtain ⟨home', left, -⟩ := hend
  exact ⟨⟨format, false, g, _, _, _, hrun, path, home, home', found, left⟩, rfl, rfl, rfl, rfl, left⟩

def blankHome : Contents where
  fstype := []
  label := []
  children := 0
  signatures := []
  files := fun _ => none
  blank := fun _ _ => rfl

/-- The home in use, with a key that the user has added. -/
def usedHome : Contents where
  fstype := "ext4"
  label := "HS_HOME_100"
  children := 0
  signatures := "0x438 ext4"
  files := Function.update (fun _ => none) authorizedKeys (some "ssh-ed25519 AAAA\nssh-ed25519 CCCC\n")
  blank := fun h => by cases h

def guestWith (home : Contents) (keys : Text) : Guest where
  accounts := [⟨"user", "1000", "1000"⟩]
  disks := [⟨"/dev/sdb", "HS_HOME_100", home⟩]
  paths := List.nodup_singleton _
  mounted := none
  userdata := some keys
  rootKeys := none

theorem first_boot :
    (played .create (guestWith blankHome "ssh-ed25519 AAAA\n")).1 = .ok () ∧
      ((played .create (guestWith blankHome "ssh-ed25519 AAAA\n")).2.1.contents "/dev/sdb").map
        (fun c => (c.fstype, c.label)) = some ("ext4".toList, "HS_HOME_100".toList) := by
  decide +kernel

theorem second_boot :
    ((played .create (guestWith usedHome "ssh-ed25519 AAAA\nssh-ed25519 BBBB\n")).2.1.contents "/dev/sdb").map
      (fun c => c.files authorizedKeys) = some (some "ssh-ed25519 AAAA\nssh-ed25519 BBBB\n".toList) := by
  decide +kernel

/-- A home that was set up, is in use and boots again. -/
theorem used_life (format : HomeFormat) (keys : Text) :
    ∃ b₁ b₂ : Boot, Life [b₂, b₁] b₂.home' ∧ b₁.Completed ∧ b₂.format = format ∧
      b₂.before = guestWith usedHome keys ∧ b₂.home = usedHome ∧
      (played format (guestWith usedHome keys)).2.1.contents "/dev/sdb" = some b₂.home' := by
  obtain ⟨hdone, hfs⟩ := first_boot
  have hblank : (guestWith blankHome "ssh-ed25519 AAAA\n").contents "/dev/sdb" = some blankHome := rfl
  have hused : (guestWith usedHome keys).contents "/dev/sdb" = some usedHome := rfl
  obtain ⟨b₁, -, -, -, houtcome, hleft₁⟩ := exists_boot .create hblank
  obtain ⟨b₂, hformat, hbefore, hhome₂, -, hleft₂⟩ := exists_boot format hused
  rw [hleft₁] at hfs
  have hfs := Option.some.inj hfs
  have hlife : Life [b₁] usedHome :=
    (Life.boot b₁ (.new _)).use (congrArg Prod.fst hfs).symm (congrArg Prod.snd hfs).symm
  refine ⟨b₁, b₂, Life.boot b₂ (hhome₂ ▸ hlife), ?_, hformat, hbefore, hhome₂, hleft₂⟩
  rw [Boot.Completed, houtcome, hdone]

/-- The keep flavour on it. -/
theorem boots_keep_home_used :
    ∃ b₁ b₂ : Boot, Life [b₂, b₁] b₂.home' ∧ b₁.Completed ∧ b₂.home = usedHome ∧
      Files.Kept b₂.home.files b₂.home'.files := by
  obtain ⟨b₁, b₂, hlife, hdone, hformat, -, hhome, -⟩ := used_life .keep "ssh-ed25519 BBBB\n"
  have hk : ∀ newer b older, [b₂, b₁] = newer ++ b :: older → (∃ e ∈ older, Boot.Completed e) →
      KeepsKeys b.format b.torn b.before.userdata b.home := by
    intro newer b older hb hold
    cases newer with
    | nil =>
      cases hb
      intro t ht
      rw [hhome] at ht
      cases ht
      exact ⟨by decide, fun h => by rw [hformat] at h; cases h⟩
    | cons first newer =>
      have hlen : newer.length + (older.length + 1) = 1 := by simpa using (congrArg List.length hb).symm
      have hnone : older = [] := List.length_eq_zero_iff.mp (by omega)
      obtain ⟨e, he, -⟩ := hold
      rw [hnone] at he
      cases he
  obtain ⟨-, -, hkept⟩ := boots_keep_home hlife hk [] b₂ [b₁] rfl
  exact ⟨b₁, b₂, hlife, hdone, hhome, hkept ⟨b₁, by simp, hdone⟩⟩

/-- The create flavour, run again with other keys, removes the user's key. -/
theorem create_removes_key :
    ¬ ∀ (boots : List Boot) (c : Contents), Life boots c → ∀ newer b older, boots = newer ++ b :: older →
      (∃ e ∈ older, Boot.Completed e) → Files.Kept b.home.files b.home'.files := by
  intro h
  obtain ⟨b₁, b₂, hlife, hdone, -, -, hhome, hleft⟩ :=
    used_life .create "ssh-ed25519 AAAA\nssh-ed25519 BBBB\n"
  have hkept := h _ _ hlife [] b₂ [b₁] rfl ⟨b₁, by simp, hdone⟩
  have hkeys := second_boot
  rw [hleft] at hkeys
  rw [hhome] at hkept
  obtain ⟨t, ht, hpre⟩ := hkept.keys "ssh-ed25519 AAAA\nssh-ed25519 CCCC\n" rfl
  cases ht.symm.trans (Option.some.inj hkeys)
  exact absurd hpre (by decide +kernel)

end HomeStack.Vendor
