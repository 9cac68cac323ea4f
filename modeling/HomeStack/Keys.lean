import HomeStack.Error
import HomeStack.Lib.Chars
import HomeStack.Lib.Result
import HomeStack.Lib.Words

/-! Public keys as the server reads them (`keys.rs`, and the checks of
`addkey.rs`): the lines of an `authorized_keys` text, the records of a key
list, and the identities of the keys that a text holds. -/

namespace HomeStack

/-- `["ssh-", "ecdsa-", "sk-"].iter().any(|prefix| field.starts_with(prefix))` -/
def hasKeyPrefix (field : Text) : Bool :=
  ["ssh-", "ecdsa-", "sk-"].any fun head => Text.startsWith head field

/-- The first 80 characters, quoted. -/
def shown (line : Text) : Text := "'" ++ line.take 80 ++ "'"

/-- Whether a trimmed line holds no key: blank or a comment. -/
def skipped (line : Text) : Bool := line.isEmpty || Text.startsWith "#" line

/-- The key lines among trimmed lines. -/
def keyLines : List Text → Except CoreError (List Text)
  | [] => .ok []
  | line :: rest => do
    if skipped line then keyLines rest
    else if !hasKeyPrefix line then
      throw (.invalid ("Unexpected line in authorized_keys source: " ++ shown line))
    else return line :: (← keyLines rest)

def validateAuthorizedKeys (text : Text) : Except CoreError Text := do
  let keys ← keyLines ((Text.lines text).map Text.trim)
  if keys.isEmpty then throw (.invalid "No SSH public keys found for workspace user")
  return List.intercalate "\n" keys ++ "\n"

/-- One key of `parse_authorized_key_records`. -/
structure KeyRecord where
  keyType : Text
  blob : Text
  comment : Text
  label : Text
  identity : Text
  deriving DecidableEq, Repr

/-- `split_field`: the first field and what follows it. -/
def splitField (text : Text) : Text × Text :=
  (Text.trimStart text).span fun c => !Text.isWhitespace c

/-- One key line as a record. -/
def keyRecord (line : Text) : Except CoreError KeyRecord :=
  let (keyType, rest) := splitField line
  let (blob, rest) := splitField rest
  if blob.isEmpty then .error (.invalid ("Invalid authorized_keys line: " ++ shown line))
  else
    let comment := Text.trim rest
    .ok
      { keyType := keyType
        blob := blob
        comment := comment
        label := if comment.isEmpty then keyType ++ " " ++ blob.take 12 else comment
        identity := keyType ++ " " ++ blob }

def parseAuthorizedKeyRecords (text : Text) : Except CoreError (List KeyRecord) := do
  (Text.lines (← validateAuthorizedKeys text)).mapM keyRecord

def typeChar (c : Char) : Bool := c.isAlphanum || c = '@' || c = '.' || c = '-'

def blobChar (c : Char) : Bool := c.isAlphanum || c = '+' || c = '/' || c = '='

/-- The check of one record in `checked_records`. -/
def checkRecord (record : KeyRecord) : Except CoreError Unit :=
  if !record.keyType.all typeChar || !record.blob.all blobChar then
    .error (.invalid ("Invalid public key of type '" ++ Text.escapeDebug record.keyType ++ "'"))
  else if record.comment.any fun c => Text.isControl c && c ≠ '\t' then
    .error (.invalid ("The comment of key " ++ record.identity ++ " has control characters"))
  else .ok ()

def checkedRecords (text : Text) : Except CoreError (List KeyRecord) := do
  let records ← parseAuthorizedKeyRecords text
  records.forM checkRecord
  return records

/-- `key_line`: a key's `type blob comment` line. -/
def keyLine (record : KeyRecord) : Text :=
  if record.comment.isEmpty then record.identity else record.identity ++ " " ++ record.comment

/-- The identity of the key of a line's fields: the first field that names a
key type, and the field after it. -/
def identityOf (fields : List Text) : Option Text := do
  let i ← fields.findIdx? hasKeyPrefix
  let next ← fields[i + 1]?
  return fields.getD i [] ++ " " ++ next

/-- The identity of the key of a line of `authorized_keys`. -/
def lineIdentity (line : Text) : Option Text :=
  let line := Text.trim line
  if skipped line then none else identityOf (Text.words Text.isWhitespace line)

def installedKeyIdentities (text : Text) : List Text := (Text.lines text).filterMap lineIdentity

/-- The labels of the keys that a text lacks (`missing_keys`). -/
def missingKeys (text : Text) (keys : List KeyRecord) : List Text :=
  (keys.filter fun record => !(installedKeyIdentities text).contains record.identity).map
    KeyRecord.label

/-! ## What `checked_records` accepts -/

/-- A record that can be written as a line and read back. -/
structure KeyRecord.Checked (record : KeyRecord) : Prop where
  typed : hasKeyPrefix record.keyType = true
  typeChars : ∀ c ∈ record.keyType, typeChar c = true
  blob_ne : record.blob ≠ []
  blobChars : ∀ c ∈ record.blob, blobChar c = true
  commentChars : ∀ c ∈ record.comment, Text.isControl c = true → c = '\t'
  identity_eq : record.identity = record.keyType ++ " " ++ record.blob

theorem keyLines_ok {lines keys : List Text} (h : keyLines lines = .ok keys) :
    ∀ line ∈ keys, hasKeyPrefix line = true ∧ line ∈ lines := by
  induction lines generalizing keys with
  | nil => cases h; simp
  | cons line rest ih =>
    unfold keyLines at h
    split at h
    · intro l hl
      exact ⟨(ih h l hl).1, List.mem_cons_of_mem _ (ih h l hl).2⟩
    · split at h
      · cases h
      · next hp =>
        cases hr : keyLines rest with
        | error e => rw [hr] at h; cases h
        | ok ks =>
          rw [hr] at h
          cases h
          intro l hl
          rcases List.mem_cons.mp hl with rfl | hl
          · exact ⟨by simpa using hp, by simp⟩
          · exact ⟨(ih hr l hl).1, List.mem_cons_of_mem _ (ih hr l hl).2⟩

/-- A trimmed line of a text is a line: no line feed inside, no carriage
return at its end. -/
theorem trimmed_line {text line : Text} (h : line ∈ (Text.lines text).map Text.trim) :
    '\n' ∉ line ∧ Text.stripCr line = line := by
  obtain ⟨l, hl, rfl⟩ := List.mem_map.mp h
  constructor
  · intro hn
    exact Text.lf_not_mem_lines hl (Text.mem_of_mem_trim hn)
  · rw [Text.stripCr, if_neg]
    intro hlast
    have := Text.trim_getLast? hlast
    exact absurd this (by decide)

/-- The validated text has exactly the key lines. -/
theorem validateAuthorizedKeys_lines {text out : Text} (h : validateAuthorizedKeys text = .ok out) :
    ∀ line ∈ Text.lines out, hasKeyPrefix line = true := by
  unfold validateAuthorizedKeys at h
  obtain ⟨keys, hk, h⟩ := Except.bind_ok h
  split at h
  · cases h
  · next hne =>
    cases h
    have hkeys := keyLines_ok hk
    have e : Text.lines (List.intercalate "\n" keys ++ "\n") = keys :=
      Text.lines_joined_lf (by simpa using hne) (fun l hl => (trimmed_line (hkeys l hl).2).1)
        fun l hl => (trimmed_line (hkeys l hl).2).2
    rw [e]
    exact fun line hl => (hkeys line hl).1

/-- A key prefix has no whitespace, so it is a prefix of the first field. -/
theorem hasKeyPrefix_field {line : Text} (h : hasKeyPrefix line = true) :
    hasKeyPrefix (splitField line).1 = true := by
  obtain ⟨head, hm, hp⟩ := List.any_eq_true.mp h
  have hw : (head.toList).all (fun c => !Text.isWhitespace c) = true ∧ head.toList ≠ [] := by
    fin_cases hm <;> decide
  have hstart : Text.trimStart line = line := by
    obtain ⟨t, rfl⟩ := List.isPrefixOf_iff_prefix.mp hp
    cases hh : head.toList with
    | nil => exact absurd hh hw.2
    | cons c cs =>
      have hc : Text.isWhitespace c = false := by simpa [hh] using (List.all_eq_true.mp hw.1) c (by simp [hh])
      simp [Text.trimStart, hc]
  refine List.any_eq_true.mpr ⟨head, hm, ?_⟩
  rw [splitField, hstart, List.span_eq_takeWhile_dropWhile]
  obtain ⟨t, rfl⟩ := List.isPrefixOf_iff_prefix.mp hp
  apply List.isPrefixOf_iff_prefix.mpr
  rw [List.takeWhile_append_of_pos (by simpa using hw.1)]
  exact List.prefix_append _ _

theorem checkRecord_ok {record : KeyRecord} (h : checkRecord record = .ok ()) :
    (∀ c ∈ record.keyType, typeChar c = true) ∧ (∀ c ∈ record.blob, blobChar c = true) ∧
      ∀ c ∈ record.comment, Text.isControl c = true → c = '\t' := by
  unfold checkRecord at h
  split at h
  · cases h
  · next hchars =>
    split at h
    · cases h
    · next hcomment =>
      simp only [Bool.or_eq_true, Bool.not_eq_true', not_or, Bool.not_eq_false, List.all_eq_true]
        at hchars
      simp only [List.any_eq_true, Bool.and_eq_true, decide_eq_true_eq, not_exists, not_and,
        not_not] at hcomment
      exact ⟨hchars.1, hchars.2, hcomment⟩

theorem checkedRecords_checked {text : Text} {keys : List KeyRecord}
    (h : checkedRecords text = .ok keys) : ∀ record ∈ keys, record.Checked := by
  unfold checkedRecords at h
  obtain ⟨records, hr, h⟩ := Except.bind_ok h
  obtain ⟨u, hc, h⟩ := Except.bind_ok h
  cases h
  unfold parseAuthorizedKeyRecords at hr
  obtain ⟨out, ho, hr⟩ := Except.bind_ok hr
  intro record hm
  obtain ⟨line, hl, hrec⟩ := Except.mapM_ok hr record hm
  obtain ⟨htype, hblobs, hcomment⟩ := checkRecord_ok (Except.forM_ok hc record hm)
  have htyped := hasKeyPrefix_field (validateAuthorizedKeys_lines ho line hl)
  unfold keyRecord at hrec
  simp only at hrec
  split at hrec
  · cases hrec
  · next hblob =>
    injection hrec with hrec
    subst hrec
    exact ⟨htyped, htype, by simpa using hblob, hblobs, hcomment, rfl⟩

end HomeStack
