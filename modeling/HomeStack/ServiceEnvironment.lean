import HomeStack.DeploySound

/-! The environment of a deployed service: as the settings show it, as the operator leaves it, and as
its container then has it (`services/lifecycle.rs`, and `merge_env` of `hs-deploy`). -/

namespace HomeStack.ServiceEnvironment

open Deploy (Source environment environmentEntry isUpper)
open ServiceInstance (Instance parseEnv)

/-! ## The entries of a container -/

def nul : Char := Char.ofNat 0

/-- `KEY=value` -/
def entryText (e : Text × Text) : Text := e.1 ++ '=' :: e.2

/-- The entries of `merge_env`. -/
def mergedEntries (current set : List (Text × Text)) (remove : List Text) : List (Text × Text) :=
  (current.filter fun e => !remove.contains e.1 && !set.any (·.1 = e.1)) ++ set.filter fun e =>
    !remove.contains e.1

/-- Entries as the configuration has them. -/
def envText (entries : List (Text × Text)) : Text := List.intercalate [nul] (entries.map entryText)

def mergeEnv (current set : List (Text × Text)) (remove : List Text) : Text :=
  envText (mergedEntries current set remove)

/-! ## The settings -/

def managed : Text := "HOMESTACK_MANAGED_HOME"

/-- What the initialization of the API sets. -/
def apiSettings : List Text :=
  ["HOMESTACK_INSTANCE", "HOMESTACK_PVE_ENDPOINTS", "HOMESTACK_PVE_POOL", "HOMESTACK_PVE_GOLD_POOL",
    "HOMESTACK_PROMETHEUS_URL",
    "HOMESTACK_MANAGED_HOME", "HOMESTACK_TLS_CERT_B64"]

/-- The settings show entries of this key. -/
def shows (source : Source) (key : Text) : Bool :=
  !source.manifest.schema3.any (·.ownsEnvironment key) &&
    (key ≠ "PATH" && key ≠ managed && !Schema3.secretName key) &&
    (!source.isApi || !apiSettings.contains key)

def shown (source : Source) (entries : List (Text × Text)) : List (Text × Text) :=
  entries.filter fun e => shows source e.1

def shownEnvironment (source : Source) (t : Instance) : Text :=
  List.intercalate [' '] ((shown source t.environment).map entryText)

/-- What the review of the settings makes of the environment. -/
structure Change where
  set : List (Text × Text)
  unset : List Text
  problems : List Text

def valueOf (entries : List (Text × Text)) : Option Text := (entries.find? (·.1 = managed)).map Prod.snd

/-- The environment of `plan`. -/
def change (before typed : Text) : Change :=
  if Text.trim typed = Text.trim before then ⟨[], [], []⟩
  else
    match environment typed with
    | .error e => ⟨[], [], [e]⟩
    | .ok entries =>
      let old := (environment before).toOption.getD []
      -- An entry taken out of the shown ones is removed.
      ⟨entries, (old.map Prod.fst).filter fun key => !(entries.map Prod.fst).contains key,
        if valueOf entries ≠ valueOf old then
          [managed ++ " is set by initialization; it cannot be changed here"] else []⟩

/-! ## Texts and entries -/

/-- Entries that come back as they were. -/
structure Printable (e : Text × Text) : Prop where
  key_eq : '=' ∉ e.1
  key_nul : nul ∉ e.1
  value_nul : nul ∉ e.2

theorem splitOnce_entryText {e : Text × Text} (h : '=' ∉ e.1) : Text.splitOnce "=" (entryText e) = some e :=
  Text.splitOnce_append (p := []) List.not_mem_nil (Text.splitOnce_none_of_not_mem [] e.1 h)

theorem nul_not_mem_entryText {e : Text × Text} (h : Printable e) : nul ∉ entryText e := by
  intro hm
  rcases List.mem_append.mp hm with hm | hm
  · exact h.key_nul hm
  · rcases List.mem_cons.mp hm with hm | hm
    · exact absurd hm (by decide)
    · exact h.value_nul hm

/-- What is written is what is read. -/
theorem parseEnv_envText {entries : List (Text × Text)} (h : ∀ e ∈ entries, Printable e) :
    parseEnv (envText entries) = entries := by
  unfold parseEnv envText
  cases entries with
  | nil => rfl
  | cons e rest =>
    rw [show Char.ofNat 0 = nul from rfl, List.splitOn_intercalate nul ?_ (by simp), List.filterMap_map]
    · exact (List.filterMap_congr fun e he => splitOnce_entryText (h e he).key_eq).trans
        (List.filterMap_some ..)
    · intro l hl
      obtain ⟨e, he, rfl⟩ := List.mem_map.mp hl
      exact nul_not_mem_entryText (h e he)

theorem parseEnv_printable {t : Text} : ∀ e ∈ parseEnv t, Printable e := by
  intro e he
  obtain ⟨piece, hpiece, hsplit⟩ := List.mem_filterMap.mp he
  have hnul : nul ∉ piece := fun hm => absurd (Text.mem_of_mem_splitOnP hpiece nul hm).2 (by decide)
  have heq := Text.splitOnce_some hsplit
  refine ⟨fun hm => ?_, fun hm => hnul ?_, fun hm => hnul ?_⟩
  · have hnone := Text.splitOnce_before (by simp) hsplit
    obtain ⟨a, b, hab⟩ := List.append_of_mem hm
    have hcontains := Text.contains_append_of_contains a ('=' :: b) (Text.contains_self_append "=" b)
    rw [← hab, Text.contains, hnone] at hcontains
    cases hcontains
  all_goals
    rw [heq]
    simp [hm]

/-! ## What is typed -/

/-- An entry that the setting accepts. -/
structure Typable (e : Text × Text) : Prop where
  name : (e.1.head?.any (fun c => isUpper c || c = '_') && e.1.all fun c =>
    isUpper c || c.isDigit || c = '_') = true
  plain : Schema3.secretName e.1 = false
  value : ∀ c ∈ e.2, Text.isWhitespace c = false

theorem nameChar_ne {c d : Char} (hc : (isUpper c || c.isDigit || c = '_') = true)
    (hd : (isUpper d || d.isDigit || d = '_') = false) :
    c ≠ d := by
  rintro rfl
  rw [hc] at hd
  cases hd

theorem Typable.not_mem {e : Text × Text} (h : Typable e) {d : Char}
    (hd : (isUpper d || d.isDigit || d = '_') = false) : d ∉ e.1 := by
  intro hm
  exact nameChar_ne (List.all_eq_true.mp (Bool.and_eq_true_iff.mp h.name).2 d hm) hd rfl

theorem entry_ok {entries entries' : List (Text × Text)} {w : Text}
    (h : environmentEntry entries w = .ok entries') :
    ∃ e, w = entryText e ∧ entries' = entries ++ [e] ∧ (∀ x ∈ entries, x.1 ≠ e.1) ∧
      ((∀ c ∈ w, Text.isWhitespace c = false) → Typable e) := by
  unfold environmentEntry at h
  split at h
  · cases h
  · rename_i key value hsplit
    split at h
    · cases h
    · rename_i hname
      split at h
      · cases h
      · rename_i hsecret
        split at h
        · cases h
        · rename_i hnew
          cases h
          refine ⟨(key, value), (Text.splitOnce_some hsplit).trans (by simp [entryText]), rfl, ?_,
            fun hw => ⟨?_, by simpa using hsecret, ?_⟩⟩
          · exact fun x hx heq => hnew (List.any_eq_true.mpr ⟨x, hx, decide_eq_true heq⟩)
          · simpa only [Bool.not_eq_true', Bool.not_eq_false] using hname
          · intro c hc
            exact hw c (by rw [Text.splitOnce_some hsplit]; simp [hc])

theorem entry_typable {entries : List (Text × Text)} {e : Text × Text} (h : Typable e)
    (hnew : ∀ x ∈ entries, x.1 ≠ e.1) :
    environmentEntry entries (entryText e) = .ok (entries ++ [e]) := by
  unfold environmentEntry
  rw [splitOnce_entryText (h.not_mem (by decide))]
  have hany : ¬ entries.any (·.1 = e.1) = true := by
    intro hany
    obtain ⟨x, hx, heq⟩ := List.any_eq_true.mp hany
    exact hnew x hx (of_decide_eq_true heq)
  dsimp only
  rw [h.name, h.plain, if_neg (by decide), if_neg (by decide), if_neg hany]

/-- The entries of an accepted text are its words. -/
theorem environment_ok {t : Text} {entries : List (Text × Text)} (h : environment t = .ok entries) :
    Text.words Text.isWhitespace t = entries.map entryText ∧ (entries.map Prod.fst).Nodup ∧
      ∀ e ∈ entries, Typable e := by
  have hwords : ∀ w ∈ Text.words Text.isWhitespace t, ∀ c ∈ w, Text.isWhitespace c = false :=
    fun w hw c hc => (Text.mem_of_mem_splitOnP (List.mem_of_mem_filter hw) c hc).2
  unfold environment at h
  have hloop := Except.foldlM_ok (I := fun done entries =>
    (∀ w ∈ done, ∀ c ∈ w, Text.isWhitespace c = false) →
    done = entries.map entryText ∧ (entries.map Prod.fst).Nodup ∧ ∀ e ∈ entries, Typable e) ?_ ?_ h
  · exact hloop hwords
  · intro done w entries entries' ih hstep hdone
    obtain ⟨e, rfl, rfl, hnew, htypable⟩ := entry_ok hstep
    obtain ⟨rfl, hnodup, hall⟩ := ih fun w hw => hdone w (List.mem_append_left _ hw)
    refine ⟨by simp, ?_, ?_⟩
    · rw [List.map_append, List.map_singleton]
      refine List.nodup_append.mpr ⟨hnodup, List.nodup_singleton _, ?_⟩
      rintro a ha b hb rfl
      obtain ⟨x, hx, rfl⟩ := List.mem_map.mp ha
      exact hnew x hx (List.mem_singleton.mp hb)
    · intro x hx
      rcases List.mem_append.mp hx with hx | hx
      · exact hall x hx
      · rw [List.mem_singleton.mp hx]
        exact htypable (hdone _ (by simp))
  · exact fun _ => ⟨rfl, List.nodup_nil, nofun⟩

theorem entries_typable {entries : List (Text × Text)} (h : ∀ e ∈ entries, Typable e)
    (before : List (Text × Text)) (hnodup : ((before ++ entries).map Prod.fst).Nodup) :
    (entries.map entryText).foldlM environmentEntry before = .ok (before ++ entries) := by
  induction entries generalizing before with
  | nil => simp; rfl
  | cons e rest ih =>
    obtain ⟨he, hrest⟩ := List.forall_mem_cons.mp h
    have hnew : ∀ x ∈ before, x.1 ≠ e.1 := by
      intro x hx heq
      rw [List.map_append, List.nodup_append] at hnodup
      exact hnodup.2.2 _ (List.mem_map_of_mem hx) _ (List.mem_map_of_mem List.mem_cons_self) heq
    rw [List.map_cons, List.foldlM_cons, entry_typable he hnew]
    have hrun := ih hrest (before ++ [e]) (by simpa using hnodup)
    rw [List.append_assoc, List.singleton_append] at hrun
    exact hrun

theorem nameChar_solid {c : Char} (h : (isUpper c || c.isDigit || c = '_') = true) :
    Text.isWhitespace c = false := by
  rw [Bool.or_eq_true, Bool.or_eq_true] at h
  rcases h with (h | h) | h
  · simp only [isUpper, Bool.and_eq_true, decide_eq_true_eq, Char.le_def, UInt32.le_iff_toNat_le] at h
    have hn : c.toNat = c.val.toNat := rfl
    simp only [Text.isWhitespace, hn, Bool.or_eq_false_iff, Bool.and_eq_false_iff, decide_eq_false_iff_not]
    have h1 : c.val.toNat ≥ 65 := h.1
    have h2 : c.val.toNat ≤ 90 := h.2
    omega
  · exact ServiceInstance.isWhitespace_of_isDigit h
  · rw [of_decide_eq_true h]
    decide

theorem Typable.solid {e : Text × Text} (h : Typable e) : ∀ c ∈ entryText e, Text.isWhitespace c = false := by
  intro c hc
  rcases List.mem_append.mp hc with hc | hc
  · exact nameChar_solid (List.all_eq_true.mp (Bool.and_eq_true_iff.mp h.name).2 c hc)
  · rcases List.mem_cons.mp hc with rfl | hc
    · decide
    · exact h.value c hc

theorem words_intercalate {ws : List Text} (h : ∀ w ∈ ws, w ≠ [] ∧ ∀ c ∈ w, Text.isWhitespace c = false) :
    Text.words Text.isWhitespace (List.intercalate [' '] ws) = ws := by
  induction ws with
  | nil => rfl
  | cons w ws ih =>
    obtain ⟨⟨hne, hw⟩, hrest⟩ := List.forall_mem_cons.mp h
    cases ws with
    | nil => exact Text.words_of_no_sep hne hw |> fun h => by simpa using h
    | cons v vs =>
      rw [List.intercalate_cons_cons, List.append_assoc, List.singleton_append,
        Text.words_word_sep hne hw (by decide), ih hrest]

theorem entryText_ne_nil (e : Text × Text) : entryText e ≠ [] := by
  unfold entryText
  simp

/-- A text of the shown entries is read as these. -/
theorem environment_typable {entries : List (Text × Text)} (h : ∀ e ∈ entries, Typable e)
    (hnodup : (entries.map Prod.fst).Nodup) :
    environment (List.intercalate [' '] (entries.map entryText)) = .ok entries := by
  unfold environment
  rw [words_intercalate ?_]
  · exact entries_typable h [] hnodup
  · intro w hw
    obtain ⟨e, he, rfl⟩ := List.mem_map.mp hw
    exact ⟨entryText_ne_nil e, (h e he).solid⟩

/-! ## The change -/

theorem Typable.printable {e : Text × Text} (h : Typable e) (hvalue : nul ∉ e.2) : Printable e :=
  ⟨h.not_mem (by decide), h.not_mem (by decide), hvalue⟩

/-- The entries of a text without NUL come back as they were. -/
theorem environment_printable {typed : Text} {entries : List (Text × Text)}
    (h : environment typed = .ok entries) (hnul : nul ∉ typed) :
    ∀ e ∈ entries, Printable e := by
  intro e he
  obtain ⟨hwords, -, htypable⟩ := environment_ok h
  refine (htypable e he).printable fun hm => hnul ?_
  have hword : entryText e ∈ Text.words Text.isWhitespace typed := by
    rw [hwords]
    exact List.mem_map_of_mem he
  exact (Text.mem_of_mem_splitOnP (List.mem_of_mem_filter hword) nul
    (List.mem_append_right _ (List.mem_cons_of_mem _ hm))).1

theorem mem_mergedEntries {current set : List (Text × Text)} {remove : List Text} {e : Text × Text}
    (he : e ∈ mergedEntries current set remove) : e ∈ current ∨ e ∈ set :=
  (List.mem_append.mp he).imp List.mem_of_mem_filter List.mem_of_mem_filter

/-- What a container has after an edit. -/
theorem parseEnv_mergeEnv {current set : List (Text × Text)} (remove : List Text)
    (hcurrent : ∀ e ∈ current, Printable e) (hset : ∀ e ∈ set, Printable e) :
    parseEnv (mergeEnv current set remove) = mergedEntries current set remove :=
  parseEnv_envText fun e he => (mem_mergedEntries he).elim (hcurrent e) (hset e)

/-- What a change of an accepted text sets and takes out. -/
theorem change_entries {before typed : Text} {entries : List (Text × Text)}
    (hdiff : Text.trim typed ≠ Text.trim before) (h : environment typed = .ok entries) :
    (change before typed).set = entries ∧
      ∀ key, key ∈ (change before typed).unset ↔
        key ∈ ((environment before).toOption.getD []).map Prod.fst ∧ key ∉ entries.map Prod.fst := by
  unfold change
  rw [if_neg hdiff, h]
  exact ⟨rfl, fun key => by simp [List.mem_filter]⟩

theorem change_cases (before typed : Text) :
    ((change before typed).set = [] ∧ (change before typed).unset = []) ∨
      Text.trim typed ≠ Text.trim before ∧ ∃ entries, environment typed = .ok entries := by
  by_cases hdiff : Text.trim typed = Text.trim before
  · unfold change
    rw [if_pos hdiff]
    exact .inl ⟨rfl, rfl⟩
  · cases h : environment typed with
    | error e =>
      unfold change
      rw [if_neg hdiff, h]
      exact .inl ⟨rfl, rfl⟩
    | ok entries => exact .inr ⟨hdiff, entries, rfl⟩

theorem old_plain (before : Text) :
    ∀ key ∈ ((environment before).toOption.getD []).map Prod.fst, Schema3.secretName key = false := by
  intro key hkey
  obtain ⟨e, he, rfl⟩ := List.mem_map.mp hkey
  cases h : environment before with
  | error m =>
    rw [h] at he
    cases he
  | ok old =>
    rw [h] at he
    exact ((environment_ok h).2.2 e he).plain

/-- No edit of the settings touches a secret: whatever they showed and whatever is typed, the
container's secrets are the same, in order. -/
theorem secrets_kept (config before typed : Text) (hnul : nul ∉ typed) :
    (parseEnv (mergeEnv (parseEnv config) (change before typed).set (change before typed).unset)).filter
    (fun e => Schema3.secretName e.1) =
      (parseEnv config).filter fun e => Schema3.secretName e.1 := by
  rcases change_cases before typed with ⟨hset, hunset⟩ | ⟨hdiff, entries, hentries⟩
  · rw [hset, hunset, parseEnv_mergeEnv [] parseEnv_printable (List.forall_mem_nil _)]
    simp [mergedEntries]
  · obtain ⟨hset, hunset⟩ := change_entries hdiff hentries
    have hplain : ∀ e ∈ entries, Schema3.secretName e.1 = false :=
      fun e he => ((environment_ok hentries).2.2 e he).plain
    rw [hset, parseEnv_mergeEnv _ parseEnv_printable (environment_printable hentries hnul),
      mergedEntries, List.filter_append,
      List.filter_filter, List.filter_filter]
    have hnone : entries.filter (fun e => Schema3.secretName e.1 &&
        !(change before typed).unset.contains e.1) = [] := by
      refine List.filter_eq_nil_iff.mpr fun e he => ?_
      rw [hplain e he]
      simp
    rw [hnone, List.append_nil]
    refine List.filter_congr fun e _ => ?_
    cases hsecret : Schema3.secretName e.1 with
    | false => rfl
    | true =>
      have hkept : e.1 ∉ (change before typed).unset := by
        intro hm
        rw [old_plain before e.1 ((hunset e.1).mp hm).1] at hsecret
        cases hsecret
      have hnew : entries.any (·.1 = e.1) = false := by
        refine List.any_eq_false.mpr fun x hx heq => ?_
        rw [← of_decide_eq_true heq, hplain x hx] at hsecret
        cases hsecret
      simp [hkept, hnew]

/-! ## An edit of what is shown -/

section

variable {source : Source} {t : Instance} {config typed : Text}

theorem shows_managed : shows source managed = false := by simp [shows]

/-- The entries of a review without problems. -/
theorem change_ok {before : Text} (hdiff : Text.trim typed ≠ Text.trim before)
    (hok : (change before typed).problems = []) :
    ∃ entries, environment typed = .ok entries ∧
      valueOf entries = valueOf ((environment before).toOption.getD []) := by
  unfold change at hok
  rw [if_neg hdiff] at hok
  cases h : environment typed with
  | error e =>
    rw [h] at hok
    cases hok
  | ok entries =>
    rw [h] at hok
    refine ⟨entries, rfl, ?_⟩
    by_contra hne
    dsimp only at hok
    rw [if_pos hne] at hok
    cases hok

theorem valueOf_none {entries : List (Text × Text)} (h : valueOf entries = none) :
    entries.any (·.1 = managed) = false := by
  rw [valueOf, Option.map_eq_none_iff, List.find?_eq_none] at h
  exact List.any_eq_false.mpr h

/-- An accepted edit is exact: the container has what the text says, and of its other entries those that
the settings do not show and the text does not name, in order. The managed home is not touched. Of
entries that the settings show, they then show the text. -/
theorem edit_exact (henvironment : t.environment = parseEnv config)
    (htypable : ∀ e ∈ shown source t.environment, Typable e)
    (hnodup : ((shown source t.environment).map Prod.fst).Nodup) (hnul : nul ∉ typed)
    (hdiff : Text.trim typed ≠ Text.trim (shownEnvironment source t))
    (hok : (change (shownEnvironment source t) typed).problems = []) :
    ∃ entries after, environment typed = .ok entries ∧
      parseEnv (mergeEnv t.environment (change (shownEnvironment source t) typed).set
        (change (shownEnvironment source t) typed).unset) =
        after ∧
      after = (t.environment.filter fun e => !shows source e.1 && !entries.any (·.1 = e.1)) ++ entries ∧
      after.filter (·.1 = managed) = t.environment.filter (·.1 = managed) ∧
      ((∀ e ∈ entries, shows source e.1 = true) →
        shownEnvironment source { t with environment := after } =
          List.intercalate [' '] (Text.words Text.isWhitespace typed)) := by
  obtain ⟨entries, hentries, hvalue⟩ := change_ok hdiff hok
  obtain ⟨hset, hunset⟩ := change_entries hdiff hentries
  have hold : environment (shownEnvironment source t) = .ok (shown source t.environment) :=
    environment_typable htypable hnodup
  rw [hold] at hvalue hunset
  have hshown {key : Text} : key ∈ (shown source t.environment).map Prod.fst → shows source key = true := by
    intro hkey
    obtain ⟨e, he, rfl⟩ := List.mem_map.mp hkey
    exact (List.mem_filter.mp he).2
  have hnamed {key : Text} : entries.any (·.1 = key) = true ↔ key ∈ entries.map Prod.fst := by simp
  have hmanaged : entries.any (·.1 = managed) = false := by
    refine valueOf_none (hvalue.trans (Option.map_eq_none_iff.mpr
      (List.find?_eq_none.mpr fun e he heq => ?_)))
    have := hshown (List.mem_map_of_mem he)
    rw [of_decide_eq_true heq, shows_managed] at this
    cases this
  have hafter : parseEnv (mergeEnv t.environment (change (shownEnvironment source t) typed).set
      (change (shownEnvironment source t) typed).unset) =
      (t.environment.filter fun e => !shows source e.1 && !entries.any (·.1 = e.1)) ++ entries := by
    rw [hset, parseEnv_mergeEnv _ (henvironment ▸ parseEnv_printable) (environment_printable hentries hnul),
      mergedEntries]
    congr 1
    · refine List.filter_congr fun e he => ?_
      cases hshow : shows source e.1 with
      | false =>
        have hkept : e.1 ∉ (change (shownEnvironment source t) typed).unset := by
          intro hm
          rw [hshown ((hunset e.1).mp hm).1] at hshow
          cases hshow
        simp [hkept]
      | true =>
        -- what is shown is named again or taken out
        by_cases hin : e.1 ∈ entries.map Prod.fst
        · simp [hnamed.mpr hin]
        · have hout := (hunset e.1).mpr ⟨List.mem_map_of_mem (List.mem_filter.mpr ⟨he, hshow⟩), hin⟩
          simp [hout]
    · refine List.filter_eq_self.mpr fun e he => ?_
      have hkept : e.1 ∉ (change (shownEnvironment source t) typed).unset := fun hm =>
        ((hunset e.1).mp hm).2 (List.mem_map_of_mem he)
      simpa using hkept
  refine ⟨entries, _, hentries, hafter, rfl, ?_, fun hvisible => ?_⟩
  · rw [List.filter_append, List.filter_filter, List.filter_eq_nil_iff.mpr (List.any_eq_false.mp hmanaged),
    List.append_nil]
    refine List.filter_congr fun e _ => ?_
    by_cases he : e.1 = managed
    · rw [he, shows_managed, hmanaged]
      rfl
    · simp [he]
  · rw [(environment_ok hentries).1, shownEnvironment, shown, List.filter_append, List.filter_filter,
    List.filter_eq_self.mpr hvisible]
    rw [List.filter_eq_nil_iff.mpr fun e _ => by cases shows source e.1 <;> simp, List.nil_append]

end

/-- A container of a service with a password, and an edit of its settings. -/
def webConfig : Text := "PATH=/bin\x00LOG=info\x00DB_PASSWORD=x\x00MODE=fast"

def webTyped : Text := "LOG=debug NAME=web"

def webInstance : Instance where
  ctid := 1002
  node := "pve1"
  pool := "services"
  hostname := "web"
  address := "10.0.1.2"
  mac := "BC:24:11:00:00:01"
  network := "name=eth0,ip=10.0.1.2/16,hwaddr=BC:24:11:00:00:01"
  nameserver := none
  searchdomain := none
  cores := 1
  memoryMib := 512
  rootVolume := "local:1002/root"
  rootStorage := "local"
  rootMib := 1024
  homeVolume := []
  homeStorage := []
  homeMib := 0
  homeMount := []
  running := true
  onboot := true
  repository := "owner/web"
  service := "web"
  image := "ghcr.io/owner/web:1.0.0"
  digest := "sha256:0"
  description := []
  environment := parseEnv webConfig
  devices := []
  held := false

theorem edit_exact_web : ∃ entries after, environment webTyped = .ok entries ∧
    after = [("PATH".toList, "/bin".toList), ("DB_PASSWORD", "x")] ++ entries ∧
      shownEnvironment Deploy.webSource { webInstance with environment := after } =
        List.intercalate [' '] (Text.words Text.isWhitespace webTyped) := by
  have hvisible : shown Deploy.webSource webInstance.environment =
      [("LOG".toList, "info".toList), ("MODE", "fast")] := by decide +kernel
  have htyped : environment webTyped = .ok [("LOG".toList, "debug".toList), ("NAME", "web")] := by
    decide +kernel
  have hedit := edit_exact (t := webInstance) rfl ?_ (by rw [hvisible]; decide) (by decide : nul ∉ webTyped)
    (by decide +kernel) (by decide +kernel :
      (change (shownEnvironment Deploy.webSource webInstance) webTyped).problems = [])
  · obtain ⟨entries, after, hentries, -, rfl, -, hshown⟩ := hedit
    obtain rfl := Except.ok.inj (htyped.symm.trans hentries)
    exact ⟨_, _, htyped, by decide +kernel, hshown (by decide +kernel)⟩
  · rw [hvisible]
    refine List.forall_mem_cons.mpr ⟨⟨?_, ?_, ?_⟩, List.forall_mem_singleton.mpr ⟨?_, ?_, ?_⟩⟩
    all_goals decide

end HomeStack.ServiceEnvironment
