import HomeStack.Lib.Percent
import HomeStack.Lib.Utf8
import HomeStack.SetupBuild

/-! Names that the setup derives: the ids of generated entries, read back by
`config_entry_key`, and the deploy keys of repositories. -/

namespace HomeStack.Setup

/-! ## Home paths -/

/-- `home_path`: the path below `~/` and whether it names a directory. -/
def homePath (value : Text) : Except AppError (Text × Bool) :=
  match ("~/" : Text).isPrefixOf? value with
  | none => .error ⟨"Home path must start with '~/': " ++ pyRepr value⟩
  | some relative =>
    let isDirectory := relative.getLast? = some '/'
    let core := if isDirectory then relative.dropLast else relative
    if '\x00' ∈ value ∨ '\n' ∈ value ∨ '\r' ∈ value then
      .error ⟨"Home path contains an invalid control character: " ++ pyRepr value⟩
    else if core = [] then .error ⟨"Using the entire home directory ('~/') is not allowed"⟩
    else if (core.splitOn '/').any fun part => part = [] || part = "." || part = ".." then
      .error ⟨"Home path must be a normalized path below '~/' without '.' or '..': " ++ pyRepr value⟩
    else .ok (core, isDirectory)

theorem homePath_prefix {value : Text} (h : (homePath value).isOk) :
    ∃ relative, value = '~' :: '/' :: relative := by
  unfold homePath at h
  cases hp : ("~/" : Text).isPrefixOf? value with
  | none =>
    rw [hp] at h
    cases h
  | some relative => exact ⟨relative, Text.isPrefixOf?_some hp⟩

/-! ## Escapes -/

/-- `replace` of a pattern of two characters. -/
def replacePair (a b : Char) (r : Text) : Text → Text
  | x :: y :: s => if x = a ∧ y = b then r ++ replacePair a b r s else x :: replacePair a b r (y :: s)
  | s => s

/-- In this order, so a literal `~01` stays `~1`. -/
def pointerUnescape (value : Text) : Text := replacePair '~' '0' ['~'] (replacePair '~' '1' ['/'] value)

/-- `u8::from_str_radix(hex, 16)` of two bytes; it takes a sign. -/
def radixByte (c d : UInt8) : Option UInt8 :=
  if c = 0x2B then (Percent.hexValue d).map UInt8.ofNat
  else (Percent.hexValue c).bind fun high => (Percent.hexValue d).map fun low => UInt8.ofNat (high * 16 + low)

def selectorDecode : Bytes → Bytes
  | b :: c :: d :: rest =>
    match b == 0x25, radixByte c d with
    | true, some byte => byte :: selectorDecode rest
    | _, _ => b :: selectorDecode (c :: d :: rest)
  | bytes => bytes

/-- `urllib.parse.unquote` -/
def selectorUnescape (value : Text) : Text := Bytes.fromUtf8Lossy (selectorDecode value.utf8)

/-- Decode a generated structured leaf id. -/
def configEntryKey (identifier : Text) : Except AppError (Text × Text × List Text) :=
  let invalid : AppError := ⟨"Invalid structured configuration selector"⟩
  match Text.splitOnce ":" identifier with
  | none => .error invalid
  | some (application, rest) =>
    match Text.splitOnce ":" rest with
    | none => .error invalid
    | some (config, pointer) =>
      if setupId application = false ∨ setupId config = false ∨ pointer.head? ≠ some '/' then .error invalid
      else .ok (application, config, ((pointer.drop 1).splitOn '/').map fun segment =>
        pointerUnescape (selectorUnescape segment))

/-! ## A segment is read back -/

/-- The bytes `selector_escape` leaves. -/
def selectorSafe (b : UInt8) : Bool :=
  b < 128 ∧ ((Char.ofNat b.toNat).isAlphanum ∨ Char.ofNat b.toNat ∈ ("~./-_" : Text))

theorem selectorSafe_plain (b : UInt8) (h : selectorSafe b = true) : b < 0x80 ∧ b ≠ 0x25 := by
  refine ⟨(decide_eq_true_iff.mp h).1, ?_⟩
  rintro rfl
  revert h
  decide

theorem selectorEscape_eq (value : Text) : selectorEscape value = Percent.encode selectorSafe value.utf8 := by
  have hdigit : ∀ n : Fin 16, (Nat.digitChar n).toUpper = Percent.hexUpper n := by decide
  unfold selectorEscape Percent.encode
  refine congrArg (List.flatMap · _) (funext fun b => ?_)
  have hlt : b.toNat < 256 := b.toNat_lt
  have hhigh := hdigit ⟨b.toNat / 16, by omega⟩
  have hlow := hdigit ⟨b.toNat % 16, by omega⟩
  unfold Percent.encodeByte selectorSafe hexUpper
  simp only [decide_eq_true_eq]
  split
  · rfl
  · rw [hhigh, hlow]

theorem radixByte_eq {c d : UInt8} (hc : c ≠ 0x2B) : radixByte c d =
    (Percent.hexValue c).bind fun high => (Percent.hexValue d).map fun low =>
      UInt8.ofNat (high * 16 + low) := if_neg hc

/-- Without a sign the bytes are read as any percent decoder reads them. -/
theorem selectorDecode_eq {bytes : Bytes} (h : 0x2B ∉ bytes) :
    selectorDecode bytes = Percent.decode bytes := by
  match bytes with
  | [] => rfl
  | [_] => rfl
  | [_, _] => rfl
  | b :: c :: d :: rest =>
    simp only [List.mem_cons, not_or] at h
    obtain ⟨-, hc, hd, hrest⟩ := h
    have hplus : 0x2B ∉ c :: d :: rest := by simp [hc, hd, hrest]
    have hlong := selectorDecode_eq hplus
    have hshort := selectorDecode_eq hrest
    rw [selectorDecode, Percent.decode, radixByte_eq (Ne.symm hc)]
    cases b == 0x25 with
    | false => rw [hlong]
    | true =>
      cases Percent.hexValue c with
      | none => rw [Option.bind_none, hlong]
      | some high =>
        cases Percent.hexValue d with
        | none => rw [Option.bind_some, Option.map_none, hlong]
        | some low => rw [Option.bind_some, Option.map_some, hshort]

theorem plus_not_mem_encode (bytes : Bytes) : ∀ c ∈ Percent.encode selectorSafe bytes, c ≠ '+' := by
  intro c hc
  obtain ⟨b, -, hc⟩ := List.mem_flatMap.mp hc
  have hlt : b.toNat < 256 := b.toNat_lt
  have hdigit : ∀ n : Fin 16, Percent.hexUpper n ≠ '+' := by decide
  unfold Percent.encodeByte at hc
  split at hc
  · rename_i hsafe
    rw [List.mem_singleton] at hc
    rintro rfl
    have h := (decide_eq_true_iff.mp hsafe).2
    rw [← hc] at h
    revert h
    decide
  · simp only [List.mem_cons, List.not_mem_nil, or_false] at hc
    rcases hc with rfl | rfl | rfl
    · decide
    · exact hdigit ⟨b.toNat / 16, by omega⟩
    · exact hdigit ⟨b.toNat % 16, by omega⟩

theorem selectorUnescape_escape (value : Text) : selectorUnescape (selectorEscape value) = value := by
  have hascii : ∀ c ∈ Percent.encode selectorSafe value.utf8, c.toNat < 0x80 := by
    intro c hc
    obtain ⟨b, -, hc⟩ := List.mem_flatMap.mp hc
    exact Percent.encodeByte_ascii selectorSafe_plain b c hc
  have hplus : 0x2B ∉ (Percent.encode selectorSafe value.utf8).utf8 := by
    rw [Text.utf8_ascii hascii]
    intro hmem
    obtain ⟨c, hc, hbyte⟩ := List.mem_map.mp hmem
    have hlt := hascii c hc
    refine plus_not_mem_encode _ c hc (Char.toNat_inj.mp ?_)
    have hnat := congrArg UInt8.toNat hbyte
    simp only [Char.byte, UInt8.toNat_ofNat'] at hnat
    change c.toNat % 256 = 0x2B at hnat
    change c.toNat = 0x2B
    omega
  rw [selectorUnescape, selectorEscape_eq, selectorDecode_eq hplus,
    Percent.decode_utf8_encode selectorSafe_plain]

theorem selectorEscape_inj {s t : Text} (h : selectorEscape s = selectorEscape t) : s = t := by
  rw [← selectorUnescape_escape s, h, selectorUnescape_escape]

theorem replacePair_cons {a b x : Char} (h : x ≠ a) (r s : Text) :
    replacePair a b r (x :: s) = x :: replacePair a b r s := by
  cases s with
  | nil => rfl
  | cons y s => rw [replacePair, if_neg fun hxy => h hxy.1]

theorem replacePair_pair (a b : Char) (r s : Text) :
    replacePair a b r (a :: b :: s) = r ++ replacePair a b r s := by
  rw [replacePair, if_pos ⟨rfl, rfl⟩]

/-- A segment with both characters escaped. -/
theorem pointerEscape_cons (c : Char) (s : Text) : pointerEscape (c :: s) =
    (if c = '~' then ['~', '0'] else if c = '/' then ['~', '1'] else [c]) ++ pointerEscape s := by
  unfold pointerEscape
  rw [List.flatMap_cons, List.flatMap_append]
  congr 1
  by_cases htilde : c = '~'
  · subst htilde
    rfl
  · rw [if_neg htilde, if_neg htilde, List.flatMap_cons, List.flatMap_nil, List.append_nil]
    rfl

theorem replacePair_escape (value : Text) : replacePair '~' '1' ['/'] (pointerEscape value) =
    value.flatMap fun c => if c = '~' then ['~', '0'] else [c] := by
  induction value with
  | nil => rfl
  | cons c s ih =>
    rw [pointerEscape_cons, List.flatMap_cons]
    split
    · -- `~0` is left for the second replacement
      rw [List.cons_append, List.cons_append, List.nil_append, replacePair, if_neg (by decide),
        replacePair_cons (by decide), ih]
      rfl
    · rename_i htilde
      split
      · rename_i hslash
        subst hslash
        rw [List.cons_append, List.cons_append, List.nil_append, replacePair_pair, ih]
      · rw [List.singleton_append, replacePair_cons htilde, ih]
        rfl

theorem pointerUnescape_escape (value : Text) : pointerUnescape (pointerEscape value) = value := by
  rw [pointerUnescape, replacePair_escape]
  induction value with
  | nil => rfl
  | cons c s ih =>
    rw [List.flatMap_cons]
    split
    · rename_i htilde
      subst htilde
      rw [List.cons_append, List.cons_append, List.nil_append, replacePair_pair, ih]
      rfl
    · rename_i htilde
      rw [List.singleton_append, replacePair_cons htilde, ih]

theorem slash_not_mem_pointerEscape (value : Text) : '/' ∉ pointerEscape value := by
  induction value with
  | nil => simp [pointerEscape]
  | cons c s ih =>
    rw [pointerEscape_cons, List.mem_append, not_or]
    refine ⟨?_, ih⟩
    split
    · decide
    · split
      · decide
      · simp_all [eq_comm]

theorem slash_not_mem_escape (value : Text) : '/' ∉ selectorEscape (pointerEscape value) := by
  rw [selectorEscape_eq]
  intro hmem
  obtain ⟨b, hb, hc⟩ := List.mem_flatMap.mp hmem
  have hlt : b.toNat < 256 := b.toNat_lt
  have hdigit : ∀ n : Fin 16, Percent.hexUpper n ≠ '/' := by decide
  unfold Percent.encodeByte at hc
  split at hc
  · rename_i hsafe
    have hascii := (selectorSafe_plain b hsafe).1
    rw [List.mem_singleton] at hc
    have hascii : b.toNat < 0x80 := hascii
    have hnat : b.toNat = ('/' : Char).toNat := by
      rw [hc, Percent.toNat_ofNat_ascii hascii]
    obtain ⟨c, hc, hval⟩ := Text.ascii_mem_utf8 hascii hb
    have hslash : c = '/' := Char.toNat_inj.mp (hval.trans hnat)
    exact slash_not_mem_pointerEscape value (hslash ▸ hc)
  · simp only [List.mem_cons, List.not_mem_nil, or_false] at hc
    rcases hc with hc | hc | hc
    · exact absurd hc (by decide)
    · exact hdigit ⟨b.toNat / 16, by omega⟩ hc.symm
    · exact hdigit ⟨b.toNat % 16, by omega⟩ hc.symm

/-! ## Ids are unambiguous -/

theorem splitOnce_colon {a : Text} (h : ':' ∉ a) (rest : Text) :
    Text.splitOnce ":" (a ++ ':' :: rest) = some (a, rest) :=
  Text.splitOnce_append (p := []) (by simp) (Text.splitOnce_none_of_not_mem [] a h)

theorem configEntryId_eq (a c : Text) (key : List Text) : configEntryId a c key =
    a ++ ':' :: (c ++ ':' :: '/' ::
      List.intercalate ['/'] (key.map fun segment => selectorEscape (pointerEscape segment))) := by
  simp [configEntryId]

theorem appFileEntryId_eq (a path : Text) :
    appFileEntryId a path = a ++ ':' :: (("file" : Text) ++ ':' :: selectorEscape path) := by
  simp [appFileEntryId]

/-- A generated id is read back. -/
theorem configEntryKey_id {a c : Text} {key : List Text} (ha : setupId a = true) (hc : setupId c = true)
    (hkey : key ≠ []) : configEntryKey (configEntryId a c key) = .ok (a, c, key) := by
  have hsegments : (List.intercalate ['/'] (key.map fun segment =>
      selectorEscape (pointerEscape segment))).splitOn '/' =
      key.map fun segment => selectorEscape (pointerEscape segment) := by
    refine List.splitOn_intercalate '/' ?_ (by simpa using hkey)
    intro l hl
    obtain ⟨segment, -, rfl⟩ := List.mem_map.mp hl
    exact slash_not_mem_escape segment
  have hread : (fun segment => pointerUnescape (selectorUnescape segment)) ∘
      (fun segment => selectorEscape (pointerEscape segment)) = id := by
    funext segment
    simp only [Function.comp_apply, selectorUnescape_escape, pointerUnescape_escape, id]
  unfold configEntryKey
  simp only
  rw [configEntryId_eq, splitOnce_colon (colon_not_mem ha)]
  simp only
  rw [splitOnce_colon (colon_not_mem hc)]
  simp only [ha, hc, List.head?_cons, List.drop_succ_cons, List.drop_zero, hsegments,
    List.map_map, hread, List.map_id]
  simp

/-- A file is copied under the name of its path. -/
theorem appFileEntryId_inj {a a' path path' : Text} (ha : setupId a = true) (ha' : setupId a' = true)
    (h : appFileEntryId a path = appFileEntryId a' path') : a = a' ∧ path = path' := by
  rw [appFileEntryId_eq, appFileEntryId_eq] at h
  obtain ⟨hid, hrest⟩ := Text.append_sep_inj (colon_not_mem ha) (colon_not_mem ha') h
  have hpath := (Text.append_sep_inj (by decide) (by decide) hrest).2
  exact ⟨hid, selectorEscape_inj hpath⟩

theorem configEntryId_inj {a a' c c' : Text} {key key' : List Text} (ha : setupId a = true)
    (ha' : setupId a' = true) (hc : setupId c = true) (hc' : setupId c' = true) (hkey : key ≠ [])
    (hkey' : key' ≠ []) (h : configEntryId a c key = configEntryId a' c' key') :
    a = a' ∧ c = c' ∧ key = key' := by
  have hread := configEntryKey_id ha hc hkey
  rw [h, configEntryKey_id ha' hc' hkey'] at hread
  obtain ⟨rfl, rfl, rfl⟩ : a' = a ∧ c' = c ∧ key' = key := by simpa using hread
  exact ⟨rfl, rfl, rfl⟩

theorem selectorEscape_home (relative : Text) :
    ∃ rest, selectorEscape ('~' :: '/' :: relative) = '~' :: rest := by
  rw [selectorEscape_eq, Text.utf8_cons]
  refine ⟨_, List.cons_append ..⟩

/-- A pointer starts with `/` and a home path with `~`. -/
theorem configEntryId_ne_appFileEntryId {a a' c path : Text} {key : List Text} (ha : setupId a = true)
    (ha' : setupId a' = true) (hc : setupId c = true) (hpath : (homePath path).isOk) :
    configEntryId a c key ≠ appFileEntryId a' path := by
  intro h
  obtain ⟨relative, rfl⟩ := homePath_prefix hpath
  obtain ⟨rest, hrest⟩ := selectorEscape_home relative
  rw [configEntryId_eq, appFileEntryId_eq, hrest] at h
  have hconfig := (Text.append_sep_inj (colon_not_mem ha) (colon_not_mem ha') h).2
  have hpointer := (Text.append_sep_inj (colon_not_mem hc) (by decide) hconfig).2
  exact absurd (List.cons.inj hpointer).1 (by decide)

/-! ## Entries of a parsed setup -/

/-- A TOML table: each key once, in every table. -/
def Keyed : Table → Prop
  | [] => True
  | (key, .obj table) :: rest => key ∉ rest.map Prod.fst ∧ Keyed table ∧ Keyed rest
  | (key, _) :: rest => key ∉ rest.map Prod.fst ∧ Keyed rest

/-- What parsing an application checks (`config_files`, `home_path` of its files). -/
structure Application.Parsed (application : Application) : Prop where
  ids : ∀ config ∈ application.configFiles, setupId config.id = true
  distinct : (application.configFiles.map ConfigFile.id).Nodup
  keyed : ∀ config ∈ application.configFiles, Keyed config.values
  files : ∀ path ∈ application.files, (homePath path).isOk

def SetupConfig.Parsed (setup : SetupConfig) : Prop :=
  ∀ e ∈ setup.items, ∀ application, e.application = some application → application.Parsed

/-- A leaf is below a key of the table. -/
theorem leafPaths_below {path : List Text} {table : Table} {leaf : List Text × Json}
    (h : leaf ∈ leafPaths path table) :
    ∃ key ∈ table.map Prod.fst, path ++ [key] <+: leaf.1 := by
  induction path, table using leafPaths.induct with
  | case1 path => simp [leafPaths] at h
  | case2 path key table rest ih ih' =>
    rw [leafPaths] at h
    rcases List.mem_append.mp h with h | h
    · obtain ⟨key', -, hbelow⟩ := ih h
      exact ⟨key, by simp, (List.prefix_append _ _).trans hbelow⟩
    · obtain ⟨key', hkey, hbelow⟩ := ih' h
      exact ⟨key', List.mem_cons_of_mem _ hkey, hbelow⟩
  | case3 path key value rest hvalue ih =>
    rw [leafPaths] at h
    · rcases List.mem_cons.mp h with rfl | h
      · exact ⟨key, by simp, List.prefix_rfl⟩
      · obtain ⟨key', hkey, hbelow⟩ := ih h
        exact ⟨key', List.mem_cons_of_mem _ hkey, hbelow⟩
    · exact hvalue

/-- Leaves below different keys are different. -/
theorem leafPaths_apart {path leaf : List Text} {key : Text} {rest : Table} {other : List Text × Json}
    (hkey : key ∉ rest.map Prod.fst) (hleaf : path ++ [key] <+: leaf) (hother : other ∈ leafPaths path rest) :
    leaf ≠ other.1 := by
  rintro rfl
  obtain ⟨key', hkey', hbelow⟩ := leafPaths_below hother
  have heq : path ++ [key] = path ++ [key'] := by
    refine List.IsPrefix.eq_of_length ?_ (by simp)
    exact List.prefix_of_prefix_length_le hleaf hbelow (by simp)
  have hsame : key = key' := by simpa using heq
  exact hkey (hsame ▸ hkey')

/-- A table has one value at each path. -/
theorem leafPaths_inj {path : List Text} {table : Table} (hkeyed : Keyed table)
    {leaf leaf' : List Text × Json} (h : leaf ∈ leafPaths path table) (h' : leaf' ∈ leafPaths path table)
    (heq : leaf.1 = leaf'.1) : leaf = leaf' := by
  induction path, table using leafPaths.induct with
  | case1 path => simp [leafPaths] at h
  | case2 path key table rest ih ih' =>
    rw [Keyed] at hkeyed
    obtain ⟨hkey, htable, hrest⟩ := hkeyed
    have hin : ∀ {l : List Text × Json}, l ∈ leafPaths (path ++ [key]) table → path ++ [key] <+: l.1 := by
      intro l hl
      obtain ⟨key', -, hbelow⟩ := leafPaths_below hl
      exact (List.prefix_append _ _).trans hbelow
    rw [leafPaths] at h h'
    rcases List.mem_append.mp h with h | h
    · rcases List.mem_append.mp h' with h' | h'
      · exact ih htable h h'
      · exact absurd heq (leafPaths_apart hkey (hin h) h')
    · rcases List.mem_append.mp h' with h' | h'
      · exact absurd heq.symm (leafPaths_apart hkey (hin h') h)
      · exact ih' hrest h h'
  | case3 path key value rest hvalue ih =>
    rw [Keyed] at hkeyed
    · rw [leafPaths] at h h'
      · rcases List.mem_cons.mp h with rfl | h
        · rcases List.mem_cons.mp h' with rfl | h'
          · rfl
          · exact absurd heq (leafPaths_apart hkeyed.1 List.prefix_rfl h')
        · rcases List.mem_cons.mp h' with rfl | h'
          · exact absurd heq.symm (leafPaths_apart hkeyed.1 List.prefix_rfl h)
          · exact ih hkeyed.2 h h'
      · exact hvalue
      · exact hvalue
    · exact hvalue

theorem leafPaths_ne_nil {table : Table} {leaf : List Text × Json} (h : leaf ∈ leafPaths [] table) :
    leaf.1 ≠ [] := by
  obtain ⟨key, -, hbelow⟩ := leafPaths_below h
  intro hnil
  rw [hnil] at hbelow
  simp at hbelow

/-- The generated children of an application, by kind. -/
theorem mem_applicationChildren {a e : Entry} (h : e ∈ applicationChildren a) :
    ∃ application, a.application = some application ∧
      ((∃ config ∈ application.configFiles, ∃ leaf ∈ leafPaths [] config.values,
          e.id = configEntryId a.id config.id leaf.1 ∧
          e = { id := configEntryId a.id config.id leaf.1, group := a.group, handler := "structured",
                label := leaf.1.getLast?.getD [],
                description := "Set " ++ config.path ++ " " ++ List.intercalate ".".toList leaf.1,
                params := .structured a.id config leaf.1 leaf.2, dependsOn := [] }) ∨
        ∃ path ∈ application.files, e.id = appFileEntryId a.id path ∧
          e = { id := appFileEntryId a.id path, group := a.group, handler := "file", label := path,
                description := "Copy " ++ path ++ " from the trusted desktop.",
                params := .file path (some a.id), dependsOn := [] }) := by
  unfold applicationChildren configEntries appFileEntries at h
  cases happ : a.application with
  | none =>
    rw [happ] at h
    simp at h
  | some application =>
    rw [happ] at h
    refine ⟨application, rfl, ?_⟩
    rcases List.mem_append.mp h with h | h
    · obtain ⟨config, hconfig, h⟩ := List.mem_flatMap.mp h
      obtain ⟨leaf, hleaf, rfl⟩ := List.mem_map.mp h
      exact .inl ⟨config, hconfig, leaf, hleaf, rfl, rfl⟩
    · obtain ⟨path, hpath, rfl⟩ := List.mem_map.mp h
      exact .inr ⟨path, hpath, rfl, rfl⟩

section

variable {setup : SetupConfig} (hparsed : setup.Parsed)

include hparsed

/-- Generated children with one id are one entry. -/
theorem child_eq_of_id {x y : Entry} (hx : setup.Child x) (hy : setup.Child y) (hid : x.id = y.id) :
    x = y := by
  obtain ⟨a, ha, hx⟩ := hx
  obtain ⟨b, hb, hy⟩ := hy
  have hida := setup.ids a ha
  have hidb := setup.ids b hb
  have hsame : a.id = b.id → a = b := fun h => List.inj_on_of_nodup_map setup.distinct ha hb h
  obtain ⟨application, happ, hkind⟩ := mem_applicationChildren hx
  obtain ⟨application', happ', hkind'⟩ := mem_applicationChildren hy
  have hok := hparsed a ha application happ
  have hok' := hparsed b hb application' happ'
  rcases hkind with ⟨config, hconfig, leaf, hleaf, hxid, hx⟩ | ⟨path, hpath, hxid, hx⟩
  · rcases hkind' with ⟨config', hconfig', leaf', hleaf', hyid, hy⟩ | ⟨path', hpath', hyid, hy⟩
    · rw [hxid, hyid] at hid
      obtain ⟨hab, hcc, hkk⟩ := configEntryId_inj hida hidb (hok.ids _ hconfig) (hok'.ids _ hconfig')
        (leafPaths_ne_nil hleaf) (leafPaths_ne_nil hleaf') hid
      obtain rfl := hsame hab
      obtain rfl : application = application' := Option.some.inj (happ.symm.trans happ')
      obtain rfl : config = config' := List.inj_on_of_nodup_map hok.distinct hconfig hconfig' hcc
      obtain rfl : leaf = leaf' := leafPaths_inj (hok.keyed _ hconfig) hleaf hleaf' hkk
      exact hx.trans hy.symm
    · rw [hxid, hyid] at hid
      exact absurd hid (configEntryId_ne_appFileEntryId hida hidb (hok.ids _ hconfig) (hok'.files _ hpath'))
  · rcases hkind' with ⟨config', hconfig', leaf', hleaf', hyid, hy⟩ | ⟨path', hpath', hyid, hy⟩
    · rw [hxid, hyid] at hid
      exact absurd hid.symm (configEntryId_ne_appFileEntryId hidb hida
        (hok'.ids _ hconfig') (hok.files _ hpath))
    · rw [hxid, hyid] at hid
      obtain ⟨hab, rfl⟩ := appFileEntryId_inj hida hidb hid
      obtain rfl := hsame hab
      exact hx.trans hy.symm

/-- Entries with one id are one entry. -/
theorem has_eq_of_id {x y : Entry} (hx : setup.Has x) (hy : setup.Has y) (hid : x.id = y.id) : x = y := by
  have hcolon : ∀ {e : Entry}, setup.Child e → ':' ∈ e.id := by
    rintro e ⟨a, ha, he⟩
    exact (applicationChildren_spec (setupId_ne_nil (setup.ids a ha)) he).2.2.2
  rcases hx with hx | hx
  · rcases hy with hy | hy
    · exact List.inj_on_of_nodup_map setup.distinct hx hy hid
    · exact absurd (hid ▸ hcolon hy) (colon_not_mem (setup.ids x hx))
  · rcases hy with hy | hy
    · exact absurd (hid ▸ hcolon hx) (colon_not_mem (setup.ids y hy))
    · exact child_eq_of_id hparsed hx hy hid

omit hparsed in
/-- What a selection is expanded to is of the setup. -/
theorem has_of_chosen {entries : List Entry} (hentries : ∀ e ∈ entries, setup.Has e) {e : Entry}
    (h : Chosen entries true e) : setup.Has e := by
  rcases h with h | ⟨-, a, ha, h⟩
  · exact hentries e h
  · rcases hentries a ha with ha | ⟨b, -, hb⟩
    · exact .inr ⟨a, ha, h⟩
    · obtain ⟨application, happ, -⟩ := mem_applicationChildren h
      obtain ⟨application', -, ⟨config, -, leaf, -, -, rfl⟩ | ⟨path, -, -, rfl⟩⟩ := mem_applicationChildren hb
      · cases happ
      · cases happ

/-- Every selected entry and every generated child is in the expansion. -/
theorem mem_expandConfigEntries {entries : List Entry} (hentries : ∀ e ∈ entries, setup.Has e) {e : Entry}
    (h : Chosen entries true e) : e ∈ expandConfigEntries entries := by
  have hid : e.id ∈ (expandConfigEntries entries).map Entry.id := by
    rw [expandConfigEntries_eq, ids_selectedOf]
    exact List.mem_map_of_mem (mem_flat.mpr h)
  obtain ⟨x, hx, hxid⟩ := List.mem_map.mp hid
  have hchosen : Chosen entries true x := by
    rw [expandConfigEntries_eq] at hx
    exact mem_flat.mp (mem_selectedOf hx)
  rwa [← has_eq_of_id hparsed (has_of_chosen hentries hchosen) (has_of_chosen hentries h) hxid]

end

/-- The ids of generated entries are read back, name one entry each, and no entry of an expanded
selection is lost to another. -/
theorem generated_ids_unambiguous :
    (∀ a c key, setupId a = true → setupId c = true → key ≠ [] →
      configEntryKey (configEntryId a c key) = .ok (a, c, key)) ∧
    (∀ a a' c c' key key', setupId a = true → setupId a' = true → setupId c = true → setupId c' = true →
      key ≠ [] → key' ≠ [] → configEntryId a c key = configEntryId a' c' key' →
        a = a' ∧ c = c' ∧ key = key') ∧
    (∀ a a' path path', setupId a = true → setupId a' = true → (homePath path).isOk → (homePath path').isOk →
      appFileEntryId a path = appFileEntryId a' path' → a = a' ∧ path = path') ∧
    (∀ a a' c key path, setupId a = true → setupId a' = true → setupId c = true → (homePath path).isOk →
      configEntryId a c key ≠ appFileEntryId a' path) ∧
    (∀ id a c key path, setupId id = true → configEntryId a c key ≠ id ∧ appFileEntryId a path ≠ id) ∧
    ∀ setup : SetupConfig, setup.Parsed → ∀ entries, (∀ e ∈ entries, setup.Has e) →
      ∀ e, Chosen entries true e → e ∈ expandConfigEntries entries := by
  refine ⟨fun a c key => configEntryKey_id, fun a a' c c' key key' => configEntryId_inj,
    fun a a' path path' ha ha' _ _ => appFileEntryId_inj ha ha',
      fun a a' c key path => configEntryId_ne_appFileEntryId,
    ?_, fun setup hparsed entries hentries e => mem_expandConfigEntries hparsed hentries⟩
  intro id a c key path hid
  have hcolon := colon_not_mem hid
  refine ⟨?_, ?_⟩
  · rintro rfl
    exact hcolon (by simp [configEntryId_eq])
  · rintro rfl
    exact hcolon (by simp [appFileEntryId_eq])

/-- A key with every separator, in a document called `file`. -/
theorem generated_ids_unambiguous_file :
    configEntryKey (configEntryId "app" "file" ["~/%:", ""]) = .ok ("app", "file", ["~/%:", ""]) ∧
      configEntryId "app" "file" ["~/%:", ""] ≠ appFileEntryId "app" "~/%:/" :=
  ⟨generated_ids_unambiguous.1 _ _ _ (by decide) (by decide) (by decide),
    generated_ids_unambiguous.2.2.2.1 _ _ _ _ _ (by decide) (by decide) (by decide) (by decide)⟩

/-! ## Deploy keys -/

end HomeStack.Setup
