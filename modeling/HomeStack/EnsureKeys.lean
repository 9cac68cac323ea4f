import HomeStack.Keys

/-! The key step in the guest (`ENSURE_LOOP` of `addkey.rs`, the same lines as in
the vendor snippets) on the text of one `authorized_keys` file, and that its awk
program and the server's `installed_key_identities` find the same keys. -/

namespace HomeStack

/-! ## The script -/

/-- What separates the fields of a record. -/
def awkBlank (c : Char) : Bool := c = ' ' || c = '\t'

def awkFields (record : Text) : List Text := Text.words awkBlank record

/-- `for (i = 1; i < NF; i++) if ($i ~ /^(ssh-|ecdsa-|sk-)/) { if ($i " " $(i + 1) == id) found = 1;
break }` -/
def awkScan (id : Text) : List Text → Bool
  | f :: g :: rest =>
    if hasKeyPrefix f then decide (f ++ " " ++ g = id) else awkScan id (g :: rest)
  | _ => false

/-- One record of the file: `$1 !~ /^#/ { … }`. -/
def awkRecordHas (id record : Text) : Bool :=
  let fields := awkFields record
  !Text.startsWith "#" (fields.headD []) && awkScan id fields

/-- The exit status of the awk program: whether some record has the key. -/
def awkHas (id file : Text) : Bool := (Text.records file).any (awkRecordHas id)

/-- `printf '%s' "$key" | awk '{print $1 " " $2}'` -/
def awkId (key : Text) : Text :=
  let fields := awkFields key
  fields.getD 0 [] ++ " " ++ fields.getD 1 []

/-- `"$(tail -c1 "$f")"`: the substitution drops a line end and a NUL. -/
def lastByte (file : Text) : Text := file.getLast?.toList.filter fun c => c ≠ '\n' && c ≠ '\x00'

/-- `[ -z "$(tail -c1 "$f")" ] || echo >> "$f"` -/
def completeLastLine (file : Text) : Text := if lastByte file = [] then file else file ++ "\n"

theorem lastByte_of_complete {file : Text} (h : Text.Complete file) : lastByte file = [] := by
  rcases h with rfl | h
  · rfl
  · simp [lastByte, h]

/-- A file that does not end in a NUL is complete when it is seen so. -/
theorem complete_of_lastByte {file : Text} (hn : file.getLast? ≠ some '\x00') (h : lastByte file = []) :
    Text.Complete file := by
  unfold lastByte at h
  cases hl : file.getLast? with
  | none => exact Or.inl (List.getLast?_eq_none_iff.mp hl)
  | some c =>
    have hc : c ≠ '\x00' := fun h => hn (by rw [hl, h])
    right
    rw [hl]
    simpa [hl, hc] using h

/-- The body of the `while` loop. -/
def ensureKey (file key : Text) : Text :=
  if key.isEmpty then file
  else if awkHas (awkId key) file then file
  else file ++ (key ++ "\n")

/-- The value of `$keys` in `ensure_keys_script`. -/
def keysVariable (keys : List KeyRecord) : Text := List.intercalate "\n" (keys.map keyLine)

/-- The loop on one file: `printf '%s\n' "$keys" | while IFS= read -r key`. A
file that is not there is created empty. -/
def ensureLoop (keys : Text) (file : Option Text) : Text :=
  (keys.splitOn '\n').foldl ensureKey (completeLastLine (file.getD []))

/-! ## One line, read twice -/

/-- The awk program and the server find the same key on a line. -/
def Agrees (line : Text) : Prop := ∀ id, awkRecordHas id line = true ↔ lineIdentity line = some id

theorem identityOf_cons_key {f : Text} (h : hasKeyPrefix f = true) (rest : List Text) :
    identityOf (f :: rest) = rest.head?.map fun g => f ++ " " ++ g := by
  cases rest with
  | nil => simp [identityOf, List.findIdx?_cons, h]
  | cons g rest => simp [identityOf, List.findIdx?_cons, h]

theorem identityOf_cons_other {f : Text} (h : hasKeyPrefix f = false) (rest : List Text) :
    identityOf (f :: rest) = identityOf rest := by
  cases hr : rest.findIdx? hasKeyPrefix with
  | none => simp [identityOf, List.findIdx?_cons, h, hr]
  | some i => simp [identityOf, List.findIdx?_cons, h, hr]

/-- The loop with its `break` stops at the field that `position` finds. -/
theorem awkScan_iff (id : Text) (fields : List Text) :
    awkScan id fields = true ↔ identityOf fields = some id := by
  induction fields with
  | nil => simp [awkScan, identityOf]
  | cons f rest ih =>
    cases hf : hasKeyPrefix f with
    | true =>
      rw [identityOf_cons_key hf]
      cases rest with
      | nil => simp [awkScan]
      | cons g rest => simp [awkScan, hf]
    | false =>
      rw [identityOf_cons_other hf]
      cases rest with
      | nil => simp [awkScan, identityOf]
      | cons g rest => simpa [awkScan, hf] using ih

theorem trim_head {s : Text} {c : Char} {t : Text} (h : Text.trim s = c :: t) :
    Text.isWhitespace c = false := by
  apply Text.trim_head? (s := s)
  rw [h]
  rfl

/-- The server's reading of a line by its fields alone. -/
theorem lineIdentity_eq (line : Text) :
    lineIdentity line =
      let fields := Text.words Text.isWhitespace line
      if Text.startsWith "#" (fields.headD []) then none else identityOf fields := by
  simp only [lineIdentity, Text.words_trim]
  cases ht : Text.trim line with
  | nil =>
    have hw : Text.words Text.isWhitespace line = [] := by
      rw [← Text.words_trim, ht]
      rfl
    rw [hw]
    rfl
  | cons c t =>
    obtain ⟨w, rest, hw⟩ := Text.words_head (trim_head ht) t
    rw [← ht, Text.words_trim] at hw
    rw [hw]
    have e : skipped (c :: t) = Text.startsWith "#" ((c :: w : Text)) := by
      simp [skipped, Text.startsWith, List.isPrefixOf]
    rw [e]
    rfl

/-- On a line whose whitespace is blanks both see the same fields. -/
theorem agrees_of_blanks {line : Text} (h : ∀ c ∈ line, Text.isWhitespace c = awkBlank c) :
    Agrees line := by
  intro id
  have e : Text.words Text.isWhitespace line = awkFields line := Text.words_congr h
  rw [lineIdentity_eq, e]
  simp only [awkRecordHas]
  cases Text.startsWith "#" ((awkFields line).headD []) with
  | true => simp
  | false => simpa using awkScan_iff id (awkFields line)

/-! ## Key lines -/

/-- Among the printable characters only the space separates fields. -/
theorem printable_solid {c : Char} (h : 33 ≤ c.toNat ∧ c.toNat ≤ 126) :
    Text.isWhitespace c = false ∧ awkBlank c = false := by
  have hs : c ≠ ' ' := by
    rintro rfl
    exact absurd h (by decide)
  have ht : c ≠ '\t' := by
    rintro rfl
    exact absurd h (by decide)
  constructor
  · simp only [Text.isWhitespace, Bool.or_eq_false_iff, Bool.and_eq_false_iff, decide_eq_false_iff_not]
    omega
  · simp [awkBlank, hs, ht]

theorem alphanum_printable {c : Char} (h : c.isAlphanum = true) : 33 ≤ c.toNat ∧ c.toNat ≤ 126 := by
  simp only [Char.isAlphanum, Char.isAlpha, Char.isUpper, Char.isLower, Char.isDigit,
    Bool.or_eq_true, Bool.and_eq_true, decide_eq_true_eq, UInt32.le_iff_toNat_le, ge_iff_le] at h
  have e : c.toNat = c.val.toNat := rfl
  rw [e]
  revert h
  generalize c.val.toNat = n
  simp only [show 'A'.val.toNat = 65 from rfl, show 'Z'.val.toNat = 90 from rfl,
    show 'a'.val.toNat = 97 from rfl, show 'z'.val.toNat = 122 from rfl,
    show '0'.val.toNat = 48 from rfl, show '9'.val.toNat = 57 from rfl]
  omega

/-- No character of a type or a blob separates fields. -/
theorem typeChar_solid {c : Char} (h : typeChar c = true) :
    Text.isWhitespace c = false ∧ awkBlank c = false := by
  simp only [typeChar, Bool.or_eq_true, decide_eq_true_eq] at h
  rcases h with ((h | rfl) | rfl) | rfl
  · exact printable_solid (alphanum_printable h)
  all_goals decide

theorem blobChar_solid {c : Char} (h : blobChar c = true) :
    Text.isWhitespace c = false ∧ awkBlank c = false := by
  simp only [blobChar, Bool.or_eq_true, decide_eq_true_eq] at h
  rcases h with ((h | rfl) | rfl) | rfl
  · exact printable_solid (alphanum_printable h)
  all_goals decide

namespace KeyRecord.Checked

variable {record : KeyRecord}

theorem type_ne (h : record.Checked) : record.keyType ≠ [] := by
  intro e
  have := h.typed
  rw [e] at this
  cases this

theorem type_not_comment (h : record.Checked) : Text.startsWith "#" record.keyType = false := by
  obtain ⟨head, hm, hp⟩ := List.any_eq_true.mp h.typed
  obtain ⟨t, ht⟩ := List.isPrefixOf_iff_prefix.mp hp
  rw [← ht]
  fin_cases hm <;> rfl

/-- The fields of a key line begin with its type and its blob, for any
separators that include the space and exclude their characters. -/
theorem words_keyLine (h : record.Checked) {p : Char → Bool} (hp : p ' ' = true)
    (ht : ∀ c, typeChar c = true → p c = false) (hb : ∀ c, blobChar c = true → p c = false) :
    ∃ rest, Text.words p (keyLine record) = record.keyType :: record.blob :: rest := by
  have hts : ∀ c ∈ record.keyType, p c = false := fun c hc => ht c (h.typeChars c hc)
  have hbs : ∀ c ∈ record.blob, p c = false := fun c hc => hb c (h.blobChars c hc)
  unfold keyLine
  rw [h.identity_eq]
  split
  · refine ⟨[], ?_⟩
    rw [show record.keyType ++ (" " : Text) ++ record.blob = record.keyType ++ ' ' :: record.blob by simp,
      Text.words_word_sep h.type_ne hts hp, Text.words_of_no_sep h.blob_ne hbs]
  · refine ⟨Text.words p record.comment, ?_⟩
    rw [show record.keyType ++ (" " : Text) ++ record.blob ++ (" " : Text) ++ record.comment =
        record.keyType ++ ' ' :: (record.blob ++ ' ' :: record.comment) by simp,
      Text.words_word_sep h.type_ne hts hp, Text.words_word_sep h.blob_ne hbs hp]

theorem awkFields_keyLine (h : record.Checked) :
    ∃ rest, awkFields (keyLine record) = record.keyType :: record.blob :: rest :=
  h.words_keyLine (p := awkBlank) rfl (fun _ hc => (typeChar_solid hc).2)
    fun _ hc => (blobChar_solid hc).2

/-- The server reads a key line back as its key. -/
theorem lineIdentity_keyLine (h : record.Checked) : lineIdentity (keyLine record) = some record.identity := by
  obtain ⟨rest, hw⟩ := h.words_keyLine (p := Text.isWhitespace) rfl (fun _ hc => (typeChar_solid hc).1)
    fun _ hc => (blobChar_solid hc).1
  rw [lineIdentity_eq, hw]
  simp only [List.headD_cons, h.type_not_comment, Bool.false_eq_true, ↓reduceIte,
    identityOf_cons_key h.typed, List.head?_cons, Option.map_some, h.identity_eq]

theorem agrees_keyLine (h : record.Checked) : Agrees (keyLine record) := by
  intro id
  obtain ⟨rest, hw⟩ := h.awkFields_keyLine
  rw [h.lineIdentity_keyLine, h.identity_eq]
  simp only [awkRecordHas, hw, List.headD_cons, h.type_not_comment, awkScan, h.typed, Bool.not_false,
    Bool.true_and, ↓reduceIte, decide_eq_true_eq, Option.some.injEq]

theorem awkId_keyLine (h : record.Checked) : awkId (keyLine record) = record.identity := by
  obtain ⟨rest, hw⟩ := h.awkFields_keyLine
  rw [h.identity_eq]
  simp [awkId, hw]

theorem keyLine_ne (h : record.Checked) : keyLine record ≠ [] := by
  intro e
  obtain ⟨rest, hw⟩ := h.awkFields_keyLine
  rw [e] at hw
  cases hw

/-- A key line has no line ends. -/
theorem not_mem_keyLine (h : record.Checked) {c : Char} (ht : typeChar c = false)
    (hb : blobChar c = false) (hs : c ≠ ' ') (hc : Text.isControl c = true) (hn : c ≠ '\t') :
    c ∉ keyLine record := by
  have htype : c ∉ record.keyType := fun hm => by simp [h.typeChars c hm] at ht
  have hblob : c ∉ record.blob := fun hm => by simp [h.blobChars c hm] at hb
  have hcomment : c ∉ record.comment := fun hm => hn (h.commentChars c hm hc)
  unfold keyLine
  rw [h.identity_eq]
  split <;> simp [htype, hblob, hcomment, hs]

theorem lf_not_mem (h : record.Checked) : '\n' ∉ keyLine record :=
  h.not_mem_keyLine (by decide) (by decide) (by decide) (by decide) (by decide)

theorem cr_not_mem (h : record.Checked) : '\r' ∉ keyLine record :=
  h.not_mem_keyLine (by decide) (by decide) (by decide) (by decide) (by decide)

end KeyRecord.Checked

/-! ## The loop -/

/-- A file in which both readers see the same keys: ended lines, no carriage
return, and agreement on every line. -/
structure Settled (file : Text) : Prop where
  complete : Text.Complete file
  noCr : '\r' ∉ file
  agrees : ∀ line ∈ Text.records file, Agrees line

namespace Settled

variable {file : Text} {record : KeyRecord}

theorem identities (h : Settled file) :
    installedKeyIdentities file = (Text.records file).filterMap lineIdentity := by
  rw [installedKeyIdentities, Text.lines_eq_records h.noCr]

/-- The awk program answers what the server will find. -/
theorem awkHas_iff (h : Settled file) (id : Text) :
    awkHas id file = true ↔ id ∈ installedKeyIdentities file := by
  rw [h.identities, awkHas, List.any_eq_true, List.mem_filterMap]
  constructor
  · rintro ⟨line, hl, ha⟩
    exact ⟨line, hl, (h.agrees line hl id).mp ha⟩
  · rintro ⟨line, hl, ha⟩
    exact ⟨line, hl, (h.agrees line hl id).mpr ha⟩

/-- Appending a key line keeps a file settled and installs that key. -/
theorem append_keyLine (h : Settled file) (hr : record.Checked) :
    Settled (file ++ (keyLine record ++ "\n")) ∧
      installedKeyIdentities (file ++ (keyLine record ++ "\n")) =
        installedKeyIdentities file ++ [record.identity] := by
  have hrec := Text.records_append_line h.complete hr.lf_not_mem
  have hset : Settled (file ++ (keyLine record ++ "\n")) := by
    refine ⟨?_, ?_, ?_⟩
    · rw [← List.append_assoc]
      exact Text.complete_append_lf _
    · simp [h.noCr, hr.cr_not_mem]
    · intro line hl
      rw [show ("\n" : Text) = ['\n'] from rfl, hrec] at hl
      rcases List.mem_append.mp hl with hl | hl
      · exact h.agrees line hl
      · rw [List.mem_singleton.mp hl]
        exact hr.agrees_keyLine
  refine ⟨hset, ?_⟩
  rw [hset.identities, h.identities, show ("\n" : Text) = ['\n'] from rfl, hrec]
  simp [hr.lineIdentity_keyLine]

end Settled

/-- What the loop does for one key, in the server's terms. -/
def installKey (file : Text) (record : KeyRecord) : Text :=
  if record.identity ∈ installedKeyIdentities file then file else file ++ (keyLine record ++ "\n")

variable {file : Text} {record : KeyRecord} {keys : List KeyRecord}

theorem ensureKey_eq (h : Settled file) (hr : record.Checked) :
    ensureKey file (keyLine record) = installKey file record := by
  have hne : (keyLine record).isEmpty = false := by simpa using hr.keyLine_ne
  simp only [ensureKey, hne, Bool.false_eq_true, ↓reduceIte, hr.awkId_keyLine, h.awkHas_iff, installKey]

/-- One key: the file only grows, and the key is there afterwards. -/
theorem installKey_step (h : Settled file) (hr : record.Checked) :
    Settled (installKey file record) ∧ file <+: installKey file record ∧
      record.identity ∈ installedKeyIdentities (installKey file record) ∧
      installedKeyIdentities file ⊆ installedKeyIdentities (installKey file record) := by
  unfold installKey
  split
  · next hin => exact ⟨h, List.prefix_refl _, hin, fun _ hm => hm⟩
  · obtain ⟨hs, hi⟩ := h.append_keyLine hr
    refine ⟨hs, List.prefix_append _ _, ?_, ?_⟩
    · rw [hi]
      simp
    · rw [hi]
      exact fun _ hm => List.mem_append_left _ hm

/-- All keys, one after the other. -/
theorem installKeys_run (h : Settled file) (hk : ∀ record ∈ keys, record.Checked) :
    (keys.map keyLine).foldl ensureKey file = keys.foldl installKey file ∧
      Settled (keys.foldl installKey file) ∧ file <+: keys.foldl installKey file ∧
      (∀ record ∈ keys, record.identity ∈ installedKeyIdentities (keys.foldl installKey file)) ∧
      installedKeyIdentities file ⊆ installedKeyIdentities (keys.foldl installKey file) := by
  induction keys generalizing file with
  | nil => exact ⟨rfl, h, List.prefix_refl _, by simp, fun _ hm => hm⟩
  | cons record keys ih =>
    have hr := hk record (by simp)
    obtain ⟨hs, hp, hin, hsub⟩ := installKey_step h hr
    obtain ⟨he, hs', hp', hin', hsub'⟩ := ih hs fun r hm => hk r (by simp [hm])
    refine ⟨?_, hs', hp.trans hp', ?_, fun _ hm => hsub' (hsub hm)⟩
    · rw [List.map_cons, List.foldl_cons, List.foldl_cons, ensureKey_eq h hr, he]
    · intro r hm
      rcases List.mem_cons.mp hm with rfl | hm
      · exact hsub' hin
      · exact hin' r hm

/-- Keys that are all there change nothing. -/
theorem installKeys_installed (h : ∀ record ∈ keys, record.identity ∈ installedKeyIdentities file) :
    keys.foldl installKey file = file := by
  induction keys with
  | nil => rfl
  | cons record keys ih =>
    have e : installKey file record = file := if_pos (h record (by simp))
    rw [List.foldl_cons, e]
    exact ih fun r hm => h r (by simp [hm])

/-- `read -r` gives back the lines that `join` put together. -/
theorem foldl_keysVariable (hk : ∀ record ∈ keys, record.Checked) (file : Text) :
    ((keysVariable keys).splitOn '\n').foldl ensureKey file = (keys.map keyLine).foldl ensureKey file := by
  cases hkeys : keys with
  | nil => rfl
  | cons r rs =>
    rw [← hkeys, keysVariable, show ("\n" : Text) = ['\n'] from rfl,
      List.splitOn_intercalate _ ?_ (by simp [hkeys])]
    intro l hl
    obtain ⟨record, hm, rfl⟩ := List.mem_map.mp hl
    exact (hk record hm).lf_not_mem

/-- The characters of an `authorized_keys` text: printable ASCII, tab, line feed. -/
def plainChar (c : Char) : Bool := c = '\n' || c = '\t' || (32 ≤ c.toNat && c.toNat ≤ 126)

/-- A plain character other than the line feed separates fields for both or
for neither. -/
theorem plainChar_blank {c : Char} (h : plainChar c = true) (hn : c ≠ '\n') :
    Text.isWhitespace c = awkBlank c := by
  by_cases hs : c = ' '
  · subst hs
    rfl
  simp only [plainChar, Bool.or_eq_true, Bool.and_eq_true, decide_eq_true_eq] at h
  rcases h with (h | rfl) | h
  · exact absurd h hn
  · rfl
  · have hc : c.toNat ≠ 32 := by
      intro e
      exact hs (Char.toNat_inj.mp e)
    obtain ⟨hw, hb⟩ := printable_solid (c := c) (by omega)
    rw [hw, hb]

theorem settled_completeLastLine {text : Text} (h : ∀ c ∈ text, plainChar c = true) :
    Settled (completeLastLine text) := by
  have hplain : ∀ c ∈ completeLastLine text, plainChar c = true := by
    unfold completeLastLine
    split
    · exact h
    · intro c hc
      rcases List.mem_append.mp hc with hc | hc
      · exact h c hc
      · rw [List.mem_singleton.mp hc]
        rfl
  refine ⟨?_, ?_, ?_⟩
  · unfold completeLastLine
    split
    · next hl =>
      refine complete_of_lastByte (fun hn => ?_) hl
      exact absurd (h _ (List.mem_of_getLast? hn)) (by decide)
    · exact Text.complete_append_lf text
  · intro hr
    exact absurd (hplain _ hr) (by decide)
  · intro line hl
    apply agrees_of_blanks
    intro c hc
    obtain ⟨hm, hn⟩ := Text.mem_of_mem_records hl c hc
    exact plainChar_blank (hplain c hm) hn

/-- **The guest's key step and the server's check agree.** -/
theorem ensureLoop_agrees (source : Text) (keys : List KeyRecord) (hk : checkedRecords source = .ok keys)
    (file : Option Text) (hf : ∀ text ∈ file, ∀ c ∈ text, plainChar c = true) :
    ensureLoop (keysVariable keys) file = keys.foldl installKey (completeLastLine (file.getD [])) ∧
      file.getD [] <+: ensureLoop (keysVariable keys) file ∧
      (∀ record ∈ keys, record.identity ∈
        installedKeyIdentities (ensureLoop (keysVariable keys) file)) ∧
      missingKeys (ensureLoop (keysVariable keys) file) keys = [] ∧
      ensureLoop (keysVariable keys) (some (ensureLoop (keysVariable keys) file)) =
        ensureLoop (keysVariable keys) file := by
  have hc := checkedRecords_checked hk
  have hplain : ∀ c ∈ file.getD [], plainChar c = true := by
    cases file with
    | none => simp
    | some text => exact hf text rfl
  have hs := settled_completeLastLine hplain
  have hrun : ensureLoop (keysVariable keys) file =
      keys.foldl installKey (completeLastLine (file.getD [])) := by
    rw [ensureLoop, foldl_keysVariable hc]
    exact (installKeys_run hs hc).1
  obtain ⟨-, hs', hp, hin, -⟩ := installKeys_run hs hc
  have hpre : file.getD [] <+: completeLastLine (file.getD []) := by
    unfold completeLastLine
    split
    · exact List.prefix_refl _
    · exact List.prefix_append _ _
  rw [hrun]
  refine ⟨rfl, hpre.trans hp, hin, ?_, ?_⟩
  · simpa [missingKeys] using hin
  · -- the result is settled, so a second run finds every key
    have hcomplete : completeLastLine (keys.foldl installKey (completeLastLine (file.getD []))) =
        keys.foldl installKey (completeLastLine (file.getD [])) := by
      rw [completeLastLine, if_pos (lastByte_of_complete hs'.complete)]
    rw [ensureLoop, foldl_keysVariable hc, Option.getD_some, hcomplete, (installKeys_run hs' hc).1]
    exact installKeys_installed hin

/-- Two keys, one of them installed already under another comment. -/
theorem ensureLoop_agrees_two :
    missingKeys (ensureLoop "ssh-rsa AAAA mail\nssh-rsa BBBB" (some "no-pty ssh-rsa AAAA x"))
      [⟨"ssh-rsa", "AAAA", "mail", "mail", "ssh-rsa AAAA"⟩,
        ⟨"ssh-rsa", "BBBB", [], "ssh-rsa BBBB", "ssh-rsa BBBB"⟩] = [] ∧
    ensureLoop "ssh-rsa AAAA mail\nssh-rsa BBBB" (some "no-pty ssh-rsa AAAA x") =
      "no-pty ssh-rsa AAAA x\nssh-rsa BBBB\n" := by
  have h := ensureLoop_agrees "# mine\n ssh-rsa AAAA  mail \nssh-rsa BBBB"
    [⟨"ssh-rsa", "AAAA", "mail", "mail", "ssh-rsa AAAA"⟩,
      ⟨"ssh-rsa", "BBBB", [], "ssh-rsa BBBB", "ssh-rsa BBBB"⟩]
    rfl (some "no-pty ssh-rsa AAAA x") (by decide +kernel)
  exact ⟨h.2.2.2.1, by decide +kernel⟩

end HomeStack
