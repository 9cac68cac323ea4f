import HomeStack.EnsureKeys
import HomeStack.Lib.Percent

/-! The keys that `addkey` writes into a VM's `sshkeys` (`addkey.rs`): how they are
printed, quoted for Proxmox, read back and merged with one more key. -/

namespace HomeStack

/-! ## Quoting -/

/-- `byte.is_ascii_alphanumeric() || b"-._~".contains(&byte)` -/
def uriSafe (b : UInt8) : Bool :=
  (0x30 ≤ b && b ≤ 0x39) || (0x41 ≤ b && b ≤ 0x5A) || (0x61 ≤ b && b ≤ 0x7A) || b =
    0x2D || b = 0x2E || b = 0x5F ||
    b = 0x7E

def quoteSshkeys (keys : Text) : Text := Percent.encode uriSafe keys.utf8

def unquote (text : Text) : Text := Bytes.fromUtf8Lossy (Percent.decode text.utf8)

theorem uriSafe_plain (b : UInt8) (h : uriSafe b = true) : b < 0x80 ∧ b ≠ 0x25 := by
  simp only [uriSafe, Bool.or_eq_true, Bool.and_eq_true, decide_eq_true_eq] at h
  constructor
  · rw [UInt8.lt_iff_toNat_lt]
    simp only [UInt8.le_iff_toNat_le, ← UInt8.toNat_inj] at h
    simp at h ⊢
    omega
  · rintro rfl
    revert h
    decide

/-- A quoted text is read back. -/
theorem unquote_quoteSshkeys (text : Text) : unquote (quoteSshkeys text) = text :=
  Percent.decode_utf8_encode uriSafe_plain text

/-! ## Records -/

/-- One public key of a request (`PublicKey`). -/
structure PublicKey where
  keyType : Text
  blob : Text
  comment : Text
  line : Text
  deriving DecidableEq, Repr

def readPublicKey (text : Text) : Except CoreError PublicKey := do
  match ← checkedRecords text with
  | [record] =>
    if record.comment.isEmpty then
      throw (.invalid ("The public key has no comment; give the key a name, for example ssh-keygen -C trezor-vm"))
    return ⟨record.keyType, record.blob, record.comment, keyLine record⟩
  | records =>
    throw (.invalid ("The public key must be exactly one key, found " ++ Text.ofNat records.length))

def sshkeysRecords (vmid : Nat) (current : Text) : Except CoreError (List KeyRecord) :=
  let text := unquote current
  if ((Text.lines text).map Text.trim).all skipped then .ok []
  else
    (checkedRecords text).mapError fun error =>
      .refused ("The Proxmox sshkeys of VM " ++ Text.ofNat vmid ++ " are not usable: " ++ error.toText)

def mergeSshkeys (current : List KeyRecord) (key : PublicKey) : List KeyRecord × Bool :=
  let identity := key.keyType ++ " " ++ key.blob
  if current.any fun record => record.identity = identity then (current, true)
  else (current ++ [⟨key.keyType, key.blob, key.comment, key.comment, identity⟩], false)

/-- The value that `add_key` writes. -/
def writtenSshkeys (keys : List KeyRecord) : Text :=
  quoteSshkeys (List.intercalate "\n" (keys.map keyLine) ++ "\n")

/-! ## Records are read back -/

/-- A record as the parser makes it. -/
structure KeyRecord.Canonical (record : KeyRecord) : Prop extends record.Checked where
  trimmed : Text.trim record.comment = record.comment
  label_eq : record.label =
    if record.comment.isEmpty then record.keyType ++ " " ++ record.blob.take 12 else record.comment

theorem keyRecord_canonical {line : Text} {record : KeyRecord} (h : keyRecord line = .ok record) :
    Text.trim record.comment = record.comment ∧ record.label =
      if record.comment.isEmpty then record.keyType ++ " " ++ record.blob.take 12 else record.comment := by
  unfold keyRecord at h
  simp only at h
  split at h
  · cases h
  · injection h with h
    subst h
    exact ⟨Text.trim_trim _, rfl⟩

theorem checkedRecords_canonical {text : Text} {keys : List KeyRecord} (h : checkedRecords text = .ok keys) :
    ∀ record ∈ keys, record.Canonical := by
  have hchecked := checkedRecords_checked h
  unfold checkedRecords at h
  obtain ⟨records, hr, h⟩ := Except.bind_ok h
  obtain ⟨u, -, h⟩ := Except.bind_ok h
  cases h
  unfold parseAuthorizedKeyRecords at hr
  obtain ⟨out, -, hr⟩ := Except.bind_ok hr
  intro record hm
  obtain ⟨line, -, hrec⟩ := Except.mapM_ok hr record hm
  obtain ⟨htrimmed, hlabel⟩ := keyRecord_canonical hrec
  exact ⟨hchecked record hm, htrimmed, hlabel⟩

/-- A text without keys is refused. -/
theorem checkedRecords_ne {text : Text} {keys : List KeyRecord} (h : checkedRecords text = .ok keys) :
    keys ≠ [] := by
  unfold checkedRecords at h
  obtain ⟨records, hr, h⟩ := Except.bind_ok h
  obtain ⟨u, -, h⟩ := Except.bind_ok h
  cases h
  unfold parseAuthorizedKeyRecords at hr
  obtain ⟨out, hout, hr⟩ := Except.bind_ok hr
  unfold validateAuthorizedKeys at hout
  obtain ⟨lines, hlines, hout⟩ := Except.bind_ok hout
  obtain ⟨hne, hout⟩ := Except.guard_ok hout
  cases hout
  have htrimmed := keyLines_ok hlines
  have hread : Text.lines (List.intercalate "\n" lines ++ "\n") = lines :=
    Text.lines_joined_lf (by simpa using hne) (fun l hl => (trimmed_line (htrimmed l hl).2).1)
      fun l hl => (trimmed_line (htrimmed l hl).2).2
  rw [hread] at hr
  intro e
  subst e
  cases lines with
  | nil => exact hne rfl
  | cons line rest =>
    rw [List.mapM_cons] at hr
    obtain ⟨record, -, hr⟩ := Except.bind_ok hr
    obtain ⟨records, -, hr⟩ := Except.bind_ok hr
    cases hr

/-- A field up to a blank or the end. -/
theorem splitField_word {w rest : Text} (hw : w ≠ []) (hsolid : ∀ c ∈ w, Text.isWhitespace c = false)
    (hrest : ∀ c, rest.head? = some c → Text.isWhitespace c = true) : splitField (w ++ rest) = (w, rest) := by
  have hstart : Text.trimStart (w ++ rest) = w ++ rest := by
    cases w with
    | nil => exact absurd rfl hw
    | cons c w => simp [Text.trimStart, hsolid c (by simp)]
  have htake : rest.takeWhile (fun c => !Text.isWhitespace c) = [] := by
    cases rest with
    | nil => rfl
    | cons c rest => simp [hrest c rfl]
  have hdrop : rest.dropWhile (fun c => !Text.isWhitespace c) = rest := by
    cases rest with
    | nil => rfl
    | cons c rest => simp [hrest c rfl]
  rw [splitField, hstart, List.span_eq_takeWhile_dropWhile,
    List.takeWhile_append_of_pos (by simpa using hsolid),
    List.dropWhile_append_of_pos (by simpa using hsolid), htake, hdrop, List.append_nil]

theorem splitField_blank (rest : Text) : splitField (' ' :: rest) = splitField rest := by
  have hstart : Text.trimStart (' ' :: rest) = Text.trimStart rest := by
    rw [Text.trimStart, List.dropWhile_cons_of_pos (by decide)]
    rfl
  rw [splitField, hstart]
  rfl

namespace KeyRecord.Canonical

variable {record : KeyRecord}

/-- What follows the blob on a key's line. -/
def commentField (record : KeyRecord) : Text := if record.comment.isEmpty then [] else ' ' :: record.comment

theorem keyLine_eq (h : record.Checked) :
    keyLine record = record.keyType ++ ' ' :: (record.blob ++ commentField record) := by
  unfold keyLine commentField
  rw [h.identity_eq]
  split <;> simp

theorem trim_commentField (h : record.Canonical) : Text.trim (commentField record) = record.comment := by
  unfold commentField
  split
  · next hempty =>
    rw [List.isEmpty_iff.mp hempty]
    rfl
  · have hstart : Text.trimStart (' ' :: record.comment) = Text.trimStart record.comment := by
      rw [Text.trimStart, List.dropWhile_cons_of_pos (by decide)]
      rfl
    rw [Text.trim, hstart]
    exact h.trimmed

theorem head?_commentField (record : KeyRecord) :
    ∀ c, (commentField record).head? = some c → Text.isWhitespace c = true := by
  intro c hc
  unfold commentField at hc
  split at hc
  · cases hc
  · cases hc
    rfl

theorem type_solid (h : record.Checked) : ∀ c ∈ record.keyType, Text.isWhitespace c = false :=
  fun c hc => (typeChar_solid (h.typeChars c hc)).1

theorem blob_solid (h : record.Checked) : ∀ c ∈ record.blob, Text.isWhitespace c = false :=
  fun c hc => (blobChar_solid (h.blobChars c hc)).1

/-- A printed key is parsed as the same record. -/
theorem keyRecord_keyLine (h : record.Canonical) : keyRecord (keyLine record) = .ok record := by
  have hc := h.toChecked
  have htype : splitField (keyLine record) = (record.keyType,
      ' ' :: (record.blob ++ commentField record)) := by
    rw [keyLine_eq hc]
    refine splitField_word hc.type_ne (type_solid hc) ?_
    intro c hc
    cases hc
    rfl
  have hblob : splitField (' ' :: (record.blob ++ commentField record)) =
      (record.blob, commentField record) := by
    rw [splitField_blank]
    exact splitField_word hc.blob_ne (blob_solid hc) (head?_commentField record)
  have hne : record.blob.isEmpty = false := by simpa using hc.blob_ne
  have hlabel := h.label_eq
  have hidentity := hc.identity_eq
  unfold keyRecord
  simp only [htype, hblob, hne, h.trim_commentField]
  rw [← hlabel, ← hidentity]
  rfl

theorem trim_keyLine (h : record.Canonical) : Text.trim (keyLine record) = keyLine record := by
  have hc := h.toChecked
  rw [keyLine_eq hc]
  refine Text.trim_eq_self_of_ends (fun c hhead => ?_) fun c hlast => ?_
  · rw [List.head?_append_of_ne_nil _ hc.type_ne] at hhead
    exact type_solid hc c (List.mem_of_head? hhead)
  · rw [List.getLast?_append_of_ne_nil _ (List.cons_ne_nil _ _), ← List.singleton_append,
      List.getLast?_append_of_ne_nil _ (by simp [hc.blob_ne])] at hlast
    cases hcomment : record.comment with
    | nil =>
      have hfield : commentField record = [] := by simp [commentField, hcomment]
      rw [hfield, List.append_nil] at hlast
      exact blob_solid hc c (List.mem_of_getLast? hlast)
    | cons d rest =>
      have hfield : commentField record = [' '] ++ record.comment := by simp [commentField, hcomment]
      have hne : record.comment ≠ [] := by simp [hcomment]
      rw [hfield, List.getLast?_append_of_ne_nil _ (by simp),
        List.getLast?_append_of_ne_nil _ hne, ← h.trimmed] at hlast
      exact Text.trim_getLast? hlast

theorem hasKeyPrefix_keyLine (h : record.Checked) : hasKeyPrefix (keyLine record) = true := by
  obtain ⟨head, hm, hp⟩ := List.any_eq_true.mp h.typed
  refine List.any_eq_true.mpr ⟨head, hm, ?_⟩
  rw [keyLine_eq h]
  exact List.isPrefixOf_iff_prefix.mpr ((List.isPrefixOf_iff_prefix.mp hp).trans (List.prefix_append _ _))

theorem not_skipped (h : record.Checked) : skipped (keyLine record) = false := by
  obtain ⟨head, hm, hp⟩ := List.any_eq_true.mp (hasKeyPrefix_keyLine h)
  obtain ⟨t, ht⟩ := List.isPrefixOf_iff_prefix.mp hp
  rw [← ht]
  fin_cases hm <;> rfl

theorem checkRecord_eq (h : record.Checked) : checkRecord record = .ok () := by
  have htype : record.keyType.all typeChar = true := List.all_eq_true.mpr h.typeChars
  have hblob : record.blob.all blobChar = true := List.all_eq_true.mpr h.blobChars
  have hcomment : (record.comment.any fun c => Text.isControl c && c ≠ '\t') = false := by
    rw [List.any_eq_false]
    intro c hm
    simpa using h.commentChars c hm
  unfold checkRecord
  rw [htype, hblob, hcomment]
  rfl

end KeyRecord.Canonical

section Written

open KeyRecord.Canonical

variable {keys : List KeyRecord}

theorem keyLines_keyLine (h : ∀ record ∈ keys, record.Canonical) :
    keyLines (keys.map keyLine) = .ok (keys.map keyLine) := by
  induction keys with
  | nil => rfl
  | cons record keys ih =>
    have hr := (h record (by simp)).toChecked
    have hrest := ih fun record hm => h record (List.mem_cons_of_mem _ hm)
    rw [List.map_cons, keyLines, not_skipped hr, hasKeyPrefix_keyLine hr, hrest]
    rfl

theorem mapM_keyRecord (h : ∀ record ∈ keys, record.Canonical) :
    (keys.map keyLine).mapM keyRecord = .ok keys := by
  induction keys with
  | nil => rfl
  | cons record keys ih =>
    have hrest := ih fun record hm => h record (List.mem_cons_of_mem _ hm)
    rw [List.map_cons, List.mapM_cons, (h record (by simp)).keyRecord_keyLine, hrest]
    rfl

theorem forM_checkRecord (h : ∀ record ∈ keys, record.Canonical) : keys.forM checkRecord = .ok () := by
  induction keys with
  | nil => rfl
  | cons record keys ih =>
    have hrest := ih fun record hm => h record (List.mem_cons_of_mem _ hm)
    change checkRecord record >>= (fun _ => keys.forM checkRecord) = .ok ()
    rw [checkRecord_eq (h record (by simp)).toChecked, hrest]
    rfl

/-- Printed keys are the lines of their text, ended or not. -/
theorem lines_keyLine (hne : keys ≠ []) (h : ∀ record ∈ keys, record.Canonical) :
    Text.lines (List.intercalate "\n" (keys.map keyLine)) = keys.map keyLine ∧
      Text.lines (List.intercalate "\n" (keys.map keyLine) ++ "\n") = keys.map keyLine := by
  have hlf : ∀ x ∈ keys.map keyLine, '\n' ∉ x := by
    intro x hx
    obtain ⟨record, hm, rfl⟩ := List.mem_map.mp hx
    exact (h record hm).lf_not_mem
  have hcr : ∀ x ∈ keys.map keyLine, Text.stripCr x = x := by
    intro x hx
    obtain ⟨record, hm, rfl⟩ := List.mem_map.mp hx
    rw [Text.stripCr, if_neg]
    exact fun hlast => (h record hm).cr_not_mem (List.mem_of_getLast? hlast)
  have hempty : ∀ x ∈ keys.map keyLine, x ≠ [] := by
    intro x hx
    obtain ⟨record, hm, rfl⟩ := List.mem_map.mp hx
    exact (h record hm).keyLine_ne
  have hne : keys.map keyLine ≠ [] := by simpa using hne
  exact ⟨Text.lines_joined hne hlf hcr hempty, Text.lines_joined_lf hne hlf hcr⟩

/-- Lines that are the printed keys are parsed as the keys. -/
theorem checkedRecords_of_lines {text : Text} (hne : keys ≠ []) (h : ∀ record ∈ keys, record.Canonical)
    (hlines : Text.lines text = keys.map keyLine) : checkedRecords text = .ok keys := by
  have htrim : (Text.lines text).map Text.trim = keys.map keyLine := by
    rw [hlines, List.map_map]
    exact List.map_congr_left fun record hm => (h record hm).trim_keyLine
  have hvalid : validateAuthorizedKeys text = .ok (List.intercalate "\n" (keys.map keyLine) ++ "\n") := by
    unfold validateAuthorizedKeys
    rw [htrim, keyLines_keyLine h]
    cases keys with
    | nil => exact absurd rfl hne
    | cons record keys => rfl
  have hparsed : parseAuthorizedKeyRecords text = .ok keys := by
    unfold parseAuthorizedKeyRecords
    rw [hvalid]
    change (Text.lines (List.intercalate "\n" (keys.map keyLine) ++ "\n")).mapM keyRecord = _
    rw [(lines_keyLine hne h).2, mapM_keyRecord h]
  unfold checkedRecords
  rw [hparsed]
  change (keys.forM checkRecord >>= fun _ => pure keys) = _
  rw [forM_checkRecord h]
  rfl

/-- Quoted, the keys are read back from the VM's configuration. -/
theorem sshkeysRecords_of_lines {text : Text} (vmid : Nat) (hne : keys ≠ [])
    (h : ∀ record ∈ keys, record.Canonical) (hlines : Text.lines text = keys.map keyLine) :
    sshkeysRecords vmid (quoteSshkeys text) = .ok keys := by
  have hsome : ((Text.lines text).map Text.trim).all skipped = false := by
    rw [hlines, List.map_map, List.all_eq_false]
    obtain ⟨record, rest, hkeys⟩ := List.exists_cons_of_ne_nil hne
    have hr := h record (by simp [hkeys])
    refine ⟨keyLine record, List.mem_map.mpr ⟨record, by simp [hkeys], hr.trim_keyLine⟩, ?_⟩
    simp [not_skipped hr.toChecked]
  unfold sshkeysRecords
  simp only [unquote_quoteSshkeys, hsome, checkedRecords_of_lines hne h hlines]
  rfl

end Written

/-! ## One more key -/

/-- The record that `merge_sshkeys` appends. -/
def PublicKey.record (key : PublicKey) : KeyRecord :=
  ⟨key.keyType, key.blob, key.comment, key.comment, key.keyType ++ " " ++ key.blob⟩

theorem readPublicKey_canonical {text : Text} {key : PublicKey} (h : readPublicKey text = .ok key) :
    key.record.Canonical := by
  unfold readPublicKey at h
  obtain ⟨records, hr, h⟩ := Except.bind_ok h
  dsimp only at h
  split at h
  · next record =>
    obtain ⟨hcomment, h⟩ := Except.guard_ok h
    cases h
    have hrecord := checkedRecords_canonical hr record (by simp)
    have hlabel := hrecord.label_eq
    rw [if_neg hcomment] at hlabel
    have hsame : PublicKey.record ⟨record.keyType, record.blob, record.comment, keyLine record⟩ = record := by
      obtain ⟨keyType, blob, comment, label, identity⟩ := record
      have hidentity := hrecord.identity_eq
      dsimp only at hlabel hidentity
      subst hlabel hidentity
      rfl
    rw [hsame]
    exact hrecord
  · cases h

theorem sshkeysRecords_canonical {vmid : Nat} {sshkeys : Text} {keys : List KeyRecord}
    (h : sshkeysRecords vmid sshkeys = .ok keys) : ∀ record ∈ keys, record.Canonical := by
  unfold sshkeysRecords at h
  dsimp only at h
  split at h
  · cases h
    simp
  · cases hr : checkedRecords (unquote sshkeys) with
    | error e =>
      rw [hr] at h
      cases h
    | ok records =>
      rw [hr] at h
      cases h
      exact checkedRecords_canonical hr

/-- Keys are told apart by type and blob. -/
theorem identity_eq_iff {a b : KeyRecord} (ha : a.Checked) (hb : b.Checked) :
    a.identity = b.identity ↔ a.keyType = b.keyType ∧ a.blob = b.blob := by
  constructor
  · intro h
    have hfields : ∀ {r : KeyRecord}, r.Checked → splitField r.identity = (r.keyType, ' ' :: r.blob) := by
      intro r hr
      rw [hr.identity_eq, List.append_assoc]
      refine splitField_word hr.type_ne (KeyRecord.Canonical.type_solid hr) ?_
      intro c hc
      cases hc
      rfl
    have hsplit := hfields ha
    rw [h, hfields hb, Prod.mk.injEq, List.cons.injEq] at hsplit
    exact ⟨hsplit.1.symm, hsplit.2.2.symm⟩
  · rintro ⟨htype, hblob⟩
    rw [ha.identity_eq, hb.identity_eq, htype, hblob]

section Merge

variable {current : List KeyRecord} {key : PublicKey}

/-- Whether the key is there. -/
theorem mergeSshkeys_snd :
    (mergeSshkeys current key).2 = current.any fun record => record.identity = key.record.identity := by
  unfold mergeSshkeys
  dsimp only
  split
  · next h => exact h.symm
  · next h => exact (Bool.not_eq_true _ ▸ h).symm

/-- Nothing is removed or moved. -/
theorem mergeSshkeys_fst :
    (mergeSshkeys current key).1 = current ++ if (mergeSshkeys current key).2 then [] else [key.record] := by
  unfold mergeSshkeys
  dsimp only
  split
  · exact (List.append_nil _).symm
  · rfl

theorem mergeSshkeys_present (h : (mergeSshkeys current key).2 = true) :
    mergeSshkeys current key = (current, true) := by
  refine Prod.ext ?_ h
  rw [mergeSshkeys_fst, h]
  exact List.append_nil _

theorem mergeSshkeys_merge :
    mergeSshkeys (mergeSshkeys current key).1 key = ((mergeSshkeys current key).1, true) := by
  apply mergeSshkeys_present
  rw [mergeSshkeys_snd, List.any_eq_true]
  cases hpresent : (mergeSshkeys current key).2 with
  | true =>
    rw [mergeSshkeys_present hpresent]
    rw [mergeSshkeys_snd, List.any_eq_true] at hpresent
    exact hpresent
  | false =>
    refine ⟨key.record, ?_, by simp⟩
    rw [mergeSshkeys_fst, hpresent]
    simp

theorem mergeSshkeys_canonical (hcurrent : ∀ record ∈ current, record.Canonical)
    (hkey : key.record.Canonical) :
    (mergeSshkeys current key).1 ≠ [] ∧ ∀ record ∈ (mergeSshkeys current key).1, record.Canonical := by
  cases hpresent : (mergeSshkeys current key).2 with
  | true =>
    rw [mergeSshkeys_present hpresent]
    refine ⟨?_, hcurrent⟩
    rintro rfl
    cases hpresent
  | false =>
    rw [mergeSshkeys_fst, hpresent]
    refine ⟨by simp, fun record hm => ?_⟩
    rcases List.mem_append.mp hm with hm | hm
    · exact hcurrent record hm
    · rw [List.mem_singleton.mp hm]
      exact hkey

end Merge

/-- **What `addkey` writes is what it verifies**: keys accepted by `checked_records`
are read back from the quoted value, and merging adds a key exactly when no record
has its type and blob, after all existing records. A merged list is accepted
again. -/
theorem sshkeys_round_trip (vmid : Nat) :
    (∀ text keys, checkedRecords text = .ok keys →
      sshkeysRecords vmid (quoteSshkeys (List.intercalate "\n" (keys.map keyLine))) = .ok keys ∧
        sshkeysRecords vmid (writtenSshkeys keys) = .ok keys) ∧
    ∀ sshkeys current text key, sshkeysRecords vmid sshkeys = .ok current → readPublicKey text = .ok key →
      ((mergeSshkeys current key).2 = false ↔
        ∀ record ∈ current, ¬(record.keyType = key.keyType ∧ record.blob = key.blob)) ∧
      (mergeSshkeys current key).1 = current ++ (if (mergeSshkeys current key).2 then [] else [key.record]) ∧
      mergeSshkeys (mergeSshkeys current key).1 key = ((mergeSshkeys current key).1, true) ∧
      checkedRecords (List.intercalate "\n" ((mergeSshkeys current key).1.map keyLine)) =
        .ok (mergeSshkeys current key).1 := by
  constructor
  · intro text keys h
    have hlines := lines_keyLine (checkedRecords_ne h) (checkedRecords_canonical h)
    exact ⟨sshkeysRecords_of_lines vmid (checkedRecords_ne h) (checkedRecords_canonical h) hlines.1,
      sshkeysRecords_of_lines vmid (checkedRecords_ne h) (checkedRecords_canonical h) hlines.2⟩
  · intro sshkeys current text key hcurrent hkey
    have hrecords := sshkeysRecords_canonical hcurrent
    have hrecord := readPublicKey_canonical hkey
    obtain ⟨hne, hmerged⟩ := mergeSshkeys_canonical hrecords hrecord
    refine ⟨?_, mergeSshkeys_fst, mergeSshkeys_merge,
      checkedRecords_of_lines hne hmerged (lines_keyLine hne hmerged).1⟩
    rw [mergeSshkeys_snd, List.any_eq_false]
    refine forall₂_congr fun record hm => ?_
    rw [decide_eq_true_eq, identity_eq_iff (hrecords record hm).toChecked hrecord.toChecked]
    rfl

/-- A comment with letters outside ASCII and a percent sign. -/
theorem sshkeys_round_trip_comment :
    sshkeysRecords 101 (writtenSshkeys [⟨"ssh-rsa", "AAAA", "é 100%", "é 100%", "ssh-rsa AAAA"⟩]) =
      .ok [⟨"ssh-rsa", "AAAA", "é 100%", "é 100%", "ssh-rsa AAAA"⟩] :=
  ((sshkeys_round_trip 101).1 "# mine\n ssh-rsa  AAAA é 100% " _ rfl).2

end HomeStack
