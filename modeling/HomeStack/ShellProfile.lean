import HomeStack.Lib.Splitlines
import HomeStack.Lib.Upsert
import HomeStack.SetupPlan

/-! The two edits of `.bashrc` in a guest (`merged_profile`, `merged_exports` and the operations
`environment` and `exports` of `guest/setup_guest.py`), and the export lines that
`definitions::exports` accepts. Whether `bash -n` parses a text is a parameter. -/

namespace HomeStack.Setup

open Text

/-! ## Declared exports -/

/-- `_strings`: an array of non-empty strings without NUL. -/
def stringList (value : Json) (key : Text) : Except AppError (List Text) :=
  let error : AppError := ⟨"[setup] " ++ key ++ " must be an array of non-empty strings"⟩
  match value with
  | .arr items => items.mapM fun
    | .str text => if trim text ≠ [] ∧ '\x00' ∉ text then .ok text else .error error
    | _ => .error error
  | _ => .error error

/-- A name of the shell. -/
def validKey (key : Text) : Bool :=
  key.head?.any (fun c => c.isAlpha || c = '_') && key.all (fun c => c.isAlphanum || c = '_')

/-- What stands before the first `=`. -/
def exportKey (line : Text) : Text := line.takeWhile (· ≠ '=')

/-- One line of `exports`, after those in `lines`. -/
def addExport (lines : List Text) (text : Text) : Except AppError (List Text) :=
  let trimmed := trim text
  let line := ((("export " : Text).isPrefixOf? trimmed).map trimStart).getD trimmed
  if '=' ∉ line then .error ⟨"Environment export " ++ line ++ " needs KEY=VALUE"⟩
  else if validKey (exportKey line) = false ∨
    '\n' ∈ line then .error ⟨"Environment export " ++ line ++ " is invalid"⟩
  else if exportKey line ∈ lines.map exportKey then
    .error ⟨"Environment export " ++ exportKey line ++ " is repeated"⟩
  else .ok (lines ++ [line])

/-- `exports`: `KEY=VALUE` or `export KEY=VALUE` lines, one per key. -/
def exports (value : Json) : Except AppError (List Text) := do
  let lines ← stringList value "exports"
  lines.foldlM addExport []

/-! ## The block of a profile -/

structure GuestError where
  message : Text
  deriving DecidableEq

/-- A character `shlex.quote` leaves alone. -/
def shellSafe (c : Char) : Bool := c.isAlphanum || c ∈ ("_@%+=:,./-" : Text)

/-- `shlex.quote` -/
def shellQuote (s : Text) : Text :=
  if s = [] then "''"
  else if s.all shellSafe then s
  else "'" ++ (s.flatMap fun c => if c = '\'' then ("'\"'\"'" : Text) else [c]) ++ "'"

def binPrefix : Text := "_hs_bin=\"$HOME\"/"

def caseLine : Text := "case \":$PATH:\" in *\":$_hs_bin:\"*) ;; *) PATH=\"$_hs_bin:$PATH\" ;; esac"

/-- The lines of `posix_paths`. -/
def posixPathLines (bins : List Text) : List Text :=
  (bins.reverse.flatMap fun path => [binPrefix ++ shellQuote (path.drop 2), caseLine]) ++
    [("export PATH" : Text), "unset _hs_bin"]

def posixPaths (bins : List Text) : Text := List.intercalate "\n" (posixPathLines bins)

/-- The lines a `.bashrc` has after its paths. -/
def completionLines : List Text :=
  [("case $- in *i*)" : Text),
    "    if ! declare -F _completion_loader >/dev/null && [ -r /usr/share/bash-completion/bash_completion ]; then",
    "        . /usr/share/bash-completion/bash_completion", "    fi", ";; esac"]

/-- The block of `.bashrc` in `environment_updates`. -/
def bashBlock (bins : List Text) : Text := posixPaths bins ++ "\n" ++ List.intercalate "\n" completionLines

def profileBegin : Text := "# >>> homestack >>>"

def profileEnd : Text := "# <<< homestack <<<"

/-- The lines of a block; `str.rstrip` first. -/
def blockLines (block : Text) : List Text := splitlines (block.rdropWhile isSpace)

def managedLines (block : Text) : List Text := profileBegin :: (blockLines block ++ [profileEnd])

/-- A line an earlier block without marks may have: the pattern `path_line`. -/
def pathLine (line : Text) : Bool :=
  line = caseLine || (binPrefix.isPrefixOf? line).any fun rest => rest ≠ [] && rest.all fun c => !isSpace c

/-- The lines `merged_profile` replaces, from the first to before the second: the marked block,
or the lines at the top that an unmarked block left. -/
def ownedSpan (block : Text) (lines : List Text) : Nat × Nat :=
  let start := lines.idxOf profileBegin
  if profileBegin ∈ lines ∧ profileEnd ∈ lines.drop start then
    (start, start + (lines.drop start).idxOf profileEnd + 1)
  else (0, (lines.takeWhile fun line => line ∈ managedLines block || pathLine line).length)

/-- The lines of `merged_profile`. -/
def mergedProfile (block : Text) (lines : List Text) : List Text :=
  let span := ownedSpan block lines
  lines.take span.1 ++ managedLines block ++ lines.drop span.2

/-! ## Export lines -/

/-- The pattern `^\s*export\s+KEY=`, for the key of a declared export. -/
def exportOf (line : Text) (l : Text) : Bool :=
  (("export" : Text).isPrefixOf? (l.dropWhile isSpace)).any fun rest =>
    rest.head?.any isSpace && (exportKey line ++ ['=']).isPrefixOf (rest.dropWhile isSpace)

/-- The line a declared export has. -/
def exportLine (line : Text) : Text := "export " ++ line

def mergedExports (lines declared : List Text) : List Text :=
  Upsert.upserts exportOf exportLine declared lines

/-! ## The operations -/

section

variable (parses : Text → Bool)

/-- `environment` with the profile `bash`, as far as `.bashrc` goes: its text after it. -/
def environment (bins : List Text) (text : Text) : Except GuestError Text :=
  let content := joinLines (mergedProfile (bashBlock bins) (splitlines (universal text)))
  if parses content then .ok content else .error ⟨"bash startup syntax check failed at ~/.bashrc"⟩

/-- `exports`; what was read decides if the file is written. -/
def writeExports (declared : List Text) (text : Text) : Except GuestError Text :=
  let current := universal text
  let content := joinLines (mergedExports (splitlines current) declared)
  if parses content then .ok (if content ≠ current then content else text)
  else .error ⟨"bash startup syntax check failed at ~/.bashrc"⟩

end

end HomeStack.Setup
