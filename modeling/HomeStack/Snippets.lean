import HomeStack.Lib.Codec
import HomeStack.Lib.Sha256
import HomeStack.Lib.Words

/-! How a vendor snippet is written on a node (`hs-install`, `snippets.rs`): its bytes go in chunks to a
file next to it, which one last command sums up and moves into place. The node may fail at every
command, lose its answer, and store other bytes than were sent. The embedded snippets are a parameter.
-/

namespace HomeStack.Snippets

structure Output where
  code : Int
  stdout : Text
  stderr : Text

def Output.lastLine (text : Text) : Option Text := ((Text.lines text).map Text.trim).reverse.find? (· ≠ [])

/-- The last line of stderr, or of stdout, that is not empty. -/
def Output.detail (out : Output) : Text := ((lastLine out.stderr).or (lastLine out.stdout)).getD []

structure Node where
  name : Text
  ip : Text

abbrev Disk := Text → Option Bytes

inductive Command
  /-- `(umask 022; mkdir -p DIR && : > NEW)` -/
  | prepare (dir new : Text)
  /-- `printf %s CHUNK | base64 -d >> NEW` -/
  | append (chunk new : Text)
  /-- `sha256sum NEW && mv -f NEW PATH` -/
  | publish (new path : Text)
  /-- `rm -f NEW` -/
  | discard (new : Text)

def sum (bytes : Bytes) : Text := Sha256.hex (Sha256.digest (bytes.map UInt8.toNat))

def escapes (c : Char) : Bool := c == '\\' || c == '\n' || c == '\r'

def escape (c : Char) : Text :=
  if c = '\\' then ['\\', '\\'] else if c = '\n' then ['\\', 'n'] else if c = '\r' then ['\\', 'r'] else [c]

/-- What `sha256sum` prints for a file. -/
def sha256sum (file : Text) (bytes : Bytes) : Text :=
  (if file.any escapes then ['\\'] else []) ++ sum bytes ++ ' ' :: ' ' :: file.flatMap escape ++ ['\n']

/-- What a node does with its commands, by their number. An answer of success to the last command is the
truth; any other answer may come with the file moved or not. -/
structure Machine where
  /-- What a command leaves in the file it writes. -/
  stores : Nat → Command → Disk → Option Bytes
  answers : Nat → Command → Disk → Except Text Output
  /-- Whether the file is moved. -/
  moves : Disk → Text → Bool
  moves_some : ∀ disk new, moves disk new → (disk new).isSome
  published : ∀ n new path disk out, answers n (.publish new path) disk = .ok out → out.code = 0 →
    moves disk new ∧ ∃ bytes, disk new = some bytes ∧ out.stdout = sha256sum new bytes

def Machine.run (m : Machine) (n : Nat) (command : Command) (disk : Disk) : Disk × Except Text Output :=
  match command with
  | .prepare _ new | .append _ new | .discard new =>
    (Function.update disk new (m.stores n command disk), m.answers n command disk)
  | .publish new path =>
    (if m.moves disk new then Function.update (Function.update disk path (disk new)) new none
    else disk, m.answers n command disk)

def chunk : Nat := 1500

/-- `chunks(CHUNK)` -/
def chunks : Nat → Bytes → List Bytes
  | 0, _ => []
  | n + 1, bytes => if bytes = [] then [] else bytes.take chunk :: chunks n (bytes.drop chunk)

/-- The directory of a path: what stands before the last slash. -/
def dirOf (path : Text) : Text :=
  if '/' ∈ path then ((path.reverse.dropWhile (· ≠ '/')).drop 1).reverse else ['.']

def newOf (path : Text) : Text := path ++ ".homestack-new"

section

variable (B : Base64) (snippets : List (Text × Text)) (m : Machine) (node : Node) (name path : Text)

def content : Option Text := (snippets.find? fun s => s.1 = name).map Prod.snd

/-- The commands that bring the text. -/
def steps (text : Text) : List Command :=
  .prepare (dirOf path) (newOf path) ::
    (chunks text.utf8.length text.utf8).map fun bytes => .append (B.encode bytes) (newOf path)

def send : Nat → List Command → Disk → Disk × Except Text Unit
  | _, [], disk => (disk, .ok ())
  | n, command :: rest, disk =>
    match m.run n command disk with
    | (disk, .error e) => (disk, .error e)
    | (disk, .ok out) =>
      if out.code ≠ 0 then (disk, .error ("writing " ++ name ++ " on " ++ node.name ++ ": " ++ out.detail))
      else send (n + 1) rest disk

/-- The answer says that the text was moved into place. -/
def confirms (out : Output) (text : Text) : Bool :=
  out.code = 0 && ((Text.words Text.isWhitespace out.stdout).head?.getD [] = sum text.utf8)

/-- The last command, after the text was sent. -/
def publish (n : Nat) (text : Text) (disk : Disk) : Disk × Except Text Unit :=
  match m.run n (.publish (newOf path) path) disk with
  | (disk, .error e) => (disk, .error e)
  | (disk, .ok out) =>
    if confirms out text then (disk, .ok ())
    else
      ((m.run (n + 1) (.discard (newOf path)) disk).1,
        .error (name ++ " on " ++ node.name ++ " came out different from what was sent (" ++
          (if out.code = 0 then "checksum" else "move") ++ ")"))

def write (disk : Disk) : Disk × Except Text Unit :=
  match content snippets name with
  | none => (disk, .error ("no embedded snippet " ++ name))
  | some text =>
    match send m node name 0 (steps B path text) disk with
    | (disk, .error e) => (disk, .error e)
    | (disk, .ok ()) => publish m node name path (steps B path text).length text disk

/-- The path holds what it held or the embedded text, and the text if the writing succeeds. -/
def Kept (disk : Disk) : Prop :=
  ((write B snippets m node name path disk).1 path = disk path ∨
    ∃ text, content snippets name = some text ∧
      (write B snippets m node name path disk).1 path = some text.utf8) ∧
  ((write B snippets m node name path disk).2 = .ok () →
    ∃ text, content snippets name = some text ∧
      (write B snippets m node name path disk).1 path = some text.utf8)

/-- The disk when the commands that bring the text have all succeeded. -/
def arrived (text : Text) (disk : Disk) : Option Disk :=
  match send m node name 0 (steps B path text) disk with
  | (disk, .ok ()) => some disk
  | (_, .error _) => none

/-- The node moves only a file that holds the text, or what the path holds already if its answer is not
taken for that of the text. -/
def MovesRight (disk : Disk) : Prop :=
  ∀ text, content snippets name = some text → ∀ d, arrived B m node name path text disk = some d →
    m.moves d (newOf path) = true →
    d (newOf path) = some text.utf8 ∨ d (newOf path) = disk path ∧
      ∀ out, m.answers (steps B path text).length (.publish (newOf path) path) d = .ok out →
        confirms out text = false

end

section

variable {B : Base64} {snippets : List (Text × Text)} {m : Machine} {node : Node}
  {name path : Text} {disk : Disk}

theorem newOf_ne (path : Text) : newOf path ≠ path := by
  intro h
  have := congrArg List.length h
  simp [newOf] at this

/-- The command writes to the file next to the snippet. -/
def Command.Beside (path : Text) : Command → Prop
  | .prepare _ new | .append _ new | .discard new => new = newOf path
  | .publish _ _ => False

theorem run_path {n : Nat} {command : Command} (h : command.Beside path) :
    (m.run n command disk).1 path = disk path := by
  cases command with
  | prepare dir new =>
    cases h
    exact Function.update_of_ne (newOf_ne path).symm ..
  | append text new =>
    cases h
    exact Function.update_of_ne (newOf_ne path).symm ..
  | publish new path => exact h.elim
  | discard new =>
    cases h
    exact Function.update_of_ne (newOf_ne path).symm ..

theorem send_path {n : Nat} {commands : List Command} (h : ∀ c ∈ commands, c.Beside path) :
    (send m node name n commands disk).1 path = disk path := by
  induction commands generalizing n disk with
  | nil => rfl
  | cons command rest ih =>
    obtain ⟨hcommand, hrest⟩ := List.forall_mem_cons.mp h
    have hpath := @run_path m path disk n command hcommand
    rw [send]
    match hrun : m.run n command disk with
    | (next, .error e) =>
      rw [hrun] at hpath
      exact hpath
    | (next, .ok out) =>
      rw [hrun] at hpath
      simp only
      split
      · exact hpath
      · exact (ih hrest).trans hpath

theorem steps_beside (text : Text) : ∀ c ∈ steps B path text, c.Beside path := by
  refine List.forall_mem_cons.mpr ⟨rfl, fun c hc => ?_⟩
  obtain ⟨bytes, -, rfl⟩ := List.mem_map.mp hc
  rfl

theorem arrived_path {text : Text} {d : Disk} (h : arrived B m node name path text disk = some d) :
    d path = disk path := by
  have hpath := @send_path m node name path disk 0 _ (steps_beside (B := B) text)
  unfold arrived at h
  split at h
  · rename_i hsend
    rw [hsend] at hpath
    cases h
    exact hpath
  · cases h

/-- What the last command comes to: the file is moved or not, and only its answer decides on success. -/
theorem publish_spec {n : Nat} {text : Text} {d : Disk} :
    (publish m node name path n text d).1 path = (if m.moves d (newOf path) then d (newOf path) else d path) ∧
      ((publish m node name path n text d).2 = .ok () ↔
        ∃ out, m.answers n (.publish (newOf path) path) d = .ok out ∧ confirms out text = true) := by
  have hmoved : (m.run n (.publish (newOf path) path) d).1 path = if m.moves d (newOf path) then
      d (newOf path) else d path := by
    simp only [Machine.run]
    split
    · rw [Function.update_of_ne (newOf_ne path).symm, Function.update_self]
    · rfl
  rw [← hmoved]
  unfold publish
  cases hanswer : m.answers n (.publish (newOf path) path) d with
  | error e => simp [Machine.run, hanswer]
  | ok out =>
    cases hconfirms : confirms out text with
    | true => simp [Machine.run, hanswer, hconfirms]
    | false =>
      have hdiscard := @run_path m path (m.run n (.publish (newOf path) path) d).1 (n + 1)
        (.discard (newOf path)) rfl
      simp only [Machine.run, hanswer, hconfirms] at hdiscard ⊢
      exact ⟨hdiscard, by simp [hconfirms]⟩

/-- An answer that confirms the text comes only with the move. -/
theorem moves_of_confirms {n : Nat} {text : Text} {d : Disk} {out : Output}
    (hanswer : m.answers n (.publish (newOf path) path) d = .ok out)
    (h : confirms out text = true) : m.moves d (newOf path) = true := by
  rw [confirms, Bool.and_eq_true] at h
  exact (m.published n _ _ d out hanswer (of_decide_eq_true h.1)).1

theorem write_of_arrived {text : Text} {d : Disk} (hcontent : content snippets name = some text)
    (h : arrived B m node name path text disk = some d) :
    write B snippets m node name path disk = publish m node name path (steps B path text).length text d := by
  unfold arrived at h
  unfold write
  rw [hcontent]
  simp only
  split at h
  · rename_i hsend
    cases h
    rw [hsend]
  · cases h

theorem write_of_not_arrived {text : Text} (hcontent : content snippets name = some text)
    (h : arrived B m node name path text disk = none) :
    (write B snippets m node name path disk).1 path = disk path ∧
      (write B snippets m node name path disk).2 ≠ .ok () := by
  have hpath := @send_path m node name path disk 0 _ (steps_beside (B := B) text)
  unfold arrived at h
  unfold write
  rw [hcontent]
  simp only
  split at h
  · cases h
  · rename_i hsend
    rw [hsend] at hpath ⊢
    exact ⟨hpath, nofun⟩

/-- A snippet is never left wrong if and only if the node moves no file but a right one. -/
theorem write_kept_iff :
    Kept B snippets m node name path disk ↔ MovesRight B snippets m node name path disk := by
  unfold Kept MovesRight
  cases hcontent : content snippets name with
  | none => simp [write, hcontent]
  | some text =>
    simp only [Option.some.injEq, exists_eq_left', forall_eq']
    cases harrived : arrived B m node name path text disk with
    | none =>
      obtain ⟨hpath, hresult⟩ := write_of_not_arrived hcontent harrived
      simp [hpath, hresult]
    | some d =>
      obtain ⟨hpath, hresult⟩ := @publish_spec m node name path (steps B path text).length text d
      simp only [Option.some.injEq, forall_eq']
      rw [write_of_arrived hcontent harrived, hresult, hpath, arrived_path harrived]
      cases hmoves : m.moves d (newOf path) with
      | false =>
        have hnot : ¬ ∃ out, m.answers (steps B path text).length (.publish (newOf path) path) d = .ok out ∧
            confirms out text = true := by
          rintro ⟨out, hanswer, h⟩
          rw [moves_of_confirms hanswer h] at hmoves
          cases hmoves
        simp [hnot]
      | true =>
        simp only [if_true, forall_const]
        constructor
        · rintro ⟨hold | htext, hok⟩
          · by_cases hconfirmed : ∃ out, m.answers (steps B path text).length
                (.publish (newOf path) path) d = .ok out ∧
                confirms out text = true
            · exact .inl (hok hconfirmed)
            · refine .inr ⟨hold, fun out hanswer => ?_⟩
              exact Bool.eq_false_iff.mpr fun h => hconfirmed ⟨out, hanswer, h⟩
          · exact .inl htext
        · rintro (htext | ⟨hold, hnot⟩)
          · exact ⟨.inr htext, fun _ => htext⟩
          · refine ⟨.inl hold, ?_⟩
            rintro ⟨out, hanswer, h⟩
            rw [hnot out hanswer] at h
            cases h

/-! ## Nodes that do all they are told -/

/-- A node that carries out every command and stores what `alter` makes of the bytes. -/
def storing (B : Base64) (alter : Bytes → Bytes) : Machine where
  stores _ command disk :=
    match command with
    | .prepare _ _ => some []
    | .append text new => some ((disk new).getD [] ++ alter ((B.decode text).getD []))
    | _ => none
  answers _ command disk :=
    match command with
    | .publish new _ => .ok (match disk new with
      | some bytes => ⟨0, sha256sum new bytes, []⟩
      | none => ⟨1, [], "sha256sum: " ++ new ++ ": No such file or directory"⟩)
    | _ => .ok ⟨0, [], []⟩
  moves disk new := (disk new).isSome
  moves_some _ _ h := h
  published n new path disk out h hcode := by
    cases hnew : disk new with
    | none =>
      simp only [hnew] at h
      cases h
      cases hcode
    | some bytes =>
      simp only [hnew] at h
      cases h
      exact ⟨rfl, bytes, rfl, rfl⟩

theorem flatten_chunks {n : Nat} {bytes : Bytes} (h : bytes.length ≤ n) :
    (chunks n bytes).flatten = bytes := by
  induction n generalizing bytes with
  | zero =>
    obtain rfl : bytes = [] := List.length_eq_zero_iff.mp (Nat.le_zero.mp h)
    rfl
  | succ n ih =>
    rw [chunks]
    split
    · rename_i hnil
      rw [hnil]
      rfl
    · rename_i hne
      have hlength := List.length_pos_iff.mpr hne
      rw [List.flatten_cons, ih (by simp [chunk]; omega), List.take_append_drop]

theorem send_storing {alter : Bytes → Bytes} {n : Nat} (parts : List Bytes) {stored : Bytes}
    (h : disk (newOf path) = some stored) :
    send (storing B alter) node name n (parts.map fun bytes => .append (B.encode bytes) (newOf path)) disk =
      (Function.update disk (newOf path) (some (stored ++ (parts.map alter).flatten)), .ok ()) := by
  induction parts generalizing n disk stored with
  | nil => simp [send, ← h]
  | cons bytes parts ih =>
    rw [List.map_cons, send]
    have hstored : (Function.update disk (newOf path) (some (stored ++ alter bytes))) (newOf path) =
        some (stored ++ alter bytes) :=
      Function.update_self ..
    have hrest := @ih _ (n + 1) _ hstored
    simp only [Machine.run, storing, h, B.decode_encode, Option.getD_some, ne_eq,
      not_true_eq_false, if_false] at hrest ⊢
    rw [hrest, Function.update_idem, List.map_cons, List.flatten_cons, List.append_assoc]

/-- What such a node has when the text has arrived. -/
theorem arrived_storing (alter : Bytes → Bytes) (text : Text) :
    arrived B (storing B alter) node name path text disk =
      some (Function.update disk (newOf path)
        (some (((chunks text.utf8.length text.utf8).map alter).flatten))) := by
  have hsend := @send_storing B node name path (Function.update disk (newOf path) (some [])) alter 1
    (chunks text.utf8.length text.utf8) [] (Function.update_self ..)
  have hprepare : (storing B alter).run 0 (.prepare (dirOf path) (newOf path)) disk =
      (Function.update disk (newOf path) (some []), .ok ⟨0, [], []⟩) := rfl
  rw [arrived, steps, send, hprepare]
  simp only [ne_eq, not_true_eq_false, if_false]
  rw [hsend, Function.update_idem, List.nil_append]

theorem word_sha256sum {file : Text} (h : file.any escapes = false) (bytes : Bytes) :
    (Text.words Text.isWhitespace (sha256sum file bytes)).head? = some (sum bytes) := by
  have hne : sum bytes ≠ [] := by
    intro hnil
    have hlength := congrArg List.length hnil
    rw [sum, Sha256.length_hex, Sha256.length_digest] at hlength
    cases hlength
  rw [sha256sum, h, if_neg (by decide), List.nil_append, List.append_assoc, List.cons_append,
    Text.words_word_sep hne (fun c hc => Sha256.isWhitespace_hex hc) (by decide)]
  rfl

/-- What is moved into place is what the node has stored. -/
theorem write_storing_path {text : Text} (alter : Bytes → Bytes)
    (hcontent : content snippets name = some text) :
    (write B snippets (storing B alter) node name path disk).1 path =
      some ((chunks text.utf8.length text.utf8).map alter).flatten := by
  rw [write_of_arrived hcontent (arrived_storing alter text), publish_spec.1]
  simp [storing]

/-- A node that stores what it is sent ends up with the snippet. -/
theorem write_storing {text : Text} (hpath : path.any escapes = false)
    (hcontent : content snippets name = some text) :
    (write B snippets (storing B id) node name path disk).2 = .ok () ∧
      (write B snippets (storing B id) node name path disk).1 path = some text.utf8 := by
  have harrived := @arrived_storing B node name path disk id text
  rw [List.map_id, flatten_chunks le_rfl] at harrived
  have hok := (@publish_spec (storing B id) node name path (steps B path text).length text
    (Function.update disk (newOf path) (some text.utf8))).2
  have hnew : (newOf path).any escapes = false := by
    rw [newOf, List.any_append, hpath]
    decide
  constructor
  · rw [write_of_arrived hcontent harrived, hok]
    refine ⟨⟨0, sha256sum (newOf path) text.utf8, []⟩, by simp [storing], ?_⟩
    simp [confirms, word_sha256sum hnew]
  · rw [write_storing_path id hcontent, List.map_id, flatten_chunks le_rfl]

/-- One bit comes out different. -/
def flip (bytes : Bytes) : Bytes :=
  match bytes with
  | [] => []
  | b :: rest => (b ^^^ 1) :: rest

def embedded : List (Text × Text) := [("homestack-vendor-create.yaml", "#cloud-config\n")]

theorem write_altered : ¬ Kept Base64.standard embedded (storing Base64.standard flip) ⟨"pve", "192.0.2.7"⟩
    "homestack-vendor-create.yaml" "/var/lib/vz/snippets/homestack-vendor-create.yaml" fun _ => none := by
  intro h
  have hcontent : content embedded "homestack-vendor-create.yaml" = some "#cloud-config\n".toList := rfl
  have hpath := h.1
  rw [write_storing_path flip hcontent] at hpath
  obtain hnone | ⟨text, htext, hsame⟩ := hpath
  · cases hnone
  · rw [hcontent] at htext
    cases htext
    exact absurd hsame (by decide +kernel)

end

end HomeStack.Snippets
