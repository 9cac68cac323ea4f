import HomeStack.Lib.Json

/-! How the PVE agent reads the replies of a guest agent from its socket (`hs-pve-agent`, `filesystems.rs`):
a reply is a line, and a synchronization waits for the line with its token after a sentinel byte. The bytes
come in reads of any size. -/

namespace HomeStack.GuestResponse

def newline : UInt8 := 10

def sentinel : UInt8 := 0xff

/-- The most that is read for one reply. -/
def limit : Nat := 4 * 1024 * 1024

def isAsciiWhitespace (b : UInt8) : Bool := b = 32 || b = 9 || b = 10 || b = 12 || b = 13

/-- What has been read of a reply. -/
structure Pending where
  count : Nat
  bytes : List UInt8
  seenSentinel : Bool

def start : Pending := ⟨0, [], false⟩

/-- One byte; the sentinel discards what was read of the line. -/
def Pending.byte (p : Pending) (b : UInt8) : Pending :=
  if b = sentinel then { p with bytes := [], seenSentinel := true } else { p with bytes := p.bytes ++ [b] }

/-- The bytes of a read, up to the end of a line. -/
def Pending.push (p : Pending) (part : List UInt8) : Pending :=
  part.foldl Pending.byte { p with count := p.count + part.length }

/-- What becomes of a line. -/
inductive Verdict
  | skip
  | fail (message : Text)
  | answer (value : Json)

section

variable (fromSlice : List UInt8 → Except Text Json) (token : Option Nat)

/-- A line is judged by what was read of it; while synchronizing, whatever is not the answer is passed
over. -/
def judge (p : Pending) : Verdict :=
  if token.isSome && !p.seenSentinel then .skip
  else if p.bytes.all isAsciiWhitespace then .skip
  else
    match fromSlice p.bytes with
    | .error e => if token.isSome then .skip else .fail e
    | .ok value => if token.any fun t => (value.get "return").bind Json.asU64 ≠ some t then .skip
      else .answer value

/-- What is left in the buffer, before the reads that follow. -/
def buffered (rest : List UInt8) (reads : List (List UInt8)) : List (List UInt8) :=
  if rest = [] then reads else rest :: reads

/-- `response`, with the reads that the socket gives and how it ends after them: the reply, the bytes
that were read for it, and what is left. -/
def response (ending : Text) (p : Pending) : List (List UInt8) → Except Text (Json × Nat × List (List UInt8))
  | [] => .error ending
  | chunk :: reads =>
    if chunk = [] then .error "guest agent closed connection"
    else
      match _hline : chunk.dropWhile (· ≠ newline) with
      | [] =>
        if limit < p.count + chunk.length then .error "guest agent response exceeds 4 MiB"
        else response ending (p.push chunk) reads
      | _ :: rest =>
        let line := chunk.takeWhile (· ≠ newline) ++ [newline]
        if limit < p.count + line.length then .error "guest agent response exceeds 4 MiB"
        else
          match judge fromSlice token (p.push line) with
          | .skip => response ending { p.push line with bytes := [] } (buffered rest reads)
          | .fail e => .error e
          | .answer value => .ok (value, (p.push line).count, buffered rest reads)
termination_by reads => (reads.map fun read => read.length + 1).sum
decreasing_by
  · simp
  · have hlength : (chunk.dropWhile (· ≠ newline)).length ≤ chunk.length := List.length_dropWhile_le _ _
    rw [_hline, List.length_cons] at hlength
    unfold buffered
    split
    · simp
    · simp
      omega

variable {fromSlice : List UInt8 → Except Text Json} {token : Option Nat} {ending : Text}

/-! ## One read -/

theorem all_ne_newline {a : List UInt8} (ha : newline ∉ a) : ∀ b ∈ a, decide (b ≠ newline) = true :=
  fun _ hb => decide_eq_true (ne_of_mem_of_not_mem hb ha)

theorem dropWhile_line {a rest : List UInt8} (ha : newline ∉ a) :
    (a ++ newline :: rest).dropWhile (· ≠ newline) = newline :: rest := by
  rw [List.dropWhile_append_of_pos (all_ne_newline ha)]
  simp

theorem takeWhile_line {a rest : List UInt8} (ha : newline ∉ a) :
    (a ++ newline :: rest).takeWhile (· ≠ newline) = a := by
  rw [List.takeWhile_append_of_pos (all_ne_newline ha)]
  simp

theorem dropWhile_part {a : List UInt8} (ha : newline ∉ a) : a.dropWhile (· ≠ newline) = [] :=
  List.dropWhile_eq_nil_iff.mpr (all_ne_newline ha)

theorem response_nil (p : Pending) : response fromSlice token ending p [] = .error ending := by
  rw [response]

variable (fromSlice token ending) in
/-- What a whole line in the buffer does. -/
theorem response_line {a : List UInt8} (ha : newline ∉ a) (p : Pending) (rest : List UInt8)
    (reads : List (List UInt8)) :
    response fromSlice token ending p ((a ++ newline :: rest) :: reads) =
      if limit < p.count + (a ++ [newline]).length then .error "guest agent response exceeds 4 MiB"
      else
        match judge fromSlice token (p.push (a ++ [newline])) with
        | .skip => response fromSlice token ending { p.push (a ++ [newline]) with bytes := [] }
            (buffered rest reads)
        | .fail e => .error e
        | .answer value => .ok (value, (p.push (a ++ [newline])).count, buffered rest reads) := by
  rw [response, if_neg (by simp)]
  split
  · rename_i hnone
    rw [dropWhile_line ha] at hnone
    cases hnone
  · rename_i b rest' hsome
    rw [dropWhile_line ha] at hsome
    obtain ⟨rfl, rfl⟩ := List.cons.inj hsome
    simp only [takeWhile_line ha]

variable (fromSlice token ending) in
/-- What a read that ends within a line does. -/
theorem response_part {a : List UInt8} (ha : newline ∉ a) (hne : a ≠ []) (p : Pending)
    (reads : List (List UInt8)) :
    response fromSlice token ending p (a :: reads) =
      if limit < p.count + a.length then .error "guest agent response exceeds 4 MiB"
      else response fromSlice token ending (p.push a) reads := by
  rw [response, if_neg hne]
  split
  · rfl
  · rename_i b rest' hsome
    rw [dropWhile_part ha] at hsome
    cases hsome

/-! ## The bytes of a line -/

/-- What the bytes do does not depend on how many were counted. -/
theorem foldl_byte_count (p : Pending) (n : Nat) (part : List UInt8) :
    part.foldl Pending.byte { p with count := n } = { part.foldl Pending.byte p with count := n } := by
  induction part generalizing p with
  | nil => rfl
  | cons b part ih =>
    have hbyte : Pending.byte { p with count := n } b = { p.byte b with count := n } := by
      unfold Pending.byte
      split <;> rfl
    rw [List.foldl_cons, List.foldl_cons, hbyte, ih]

theorem foldl_byte (p : Pending) (part : List UInt8) :
    part.foldl Pending.byte p = ⟨p.count, if sentinel ∈ part then part.rtakeWhile (· ≠ sentinel)
    else p.bytes ++ part,
      p.seenSentinel || decide (sentinel ∈ part)⟩ := by
  induction part using List.reverseRecOn with
  | nil => simp
  | append_singleton part b ih =>
    rw [List.foldl_append, ih, List.foldl_cons, List.foldl_nil, Pending.byte]
    by_cases hb : b = sentinel
    · simp [hb]
    · by_cases hpart : sentinel ∈ part
      · simp [hb, hpart]
      · simp [hb, hpart, Ne.symm hb]

theorem push_count (p : Pending) (part : List UInt8) : (p.push part).count = p.count + part.length := by
  rw [Pending.push, foldl_byte]

theorem push_append (p : Pending) (a b : List UInt8) : p.push (a ++ b) = (p.push a).push b := by
  simp only [Pending.push, List.foldl_append, foldl_byte_count, List.length_append, Nat.add_assoc]

/-- A line is judged from its last sentinel on. -/
theorem push_line {p : Pending} (hp : p.bytes = []) (line : List UInt8) : p.push line =
    ⟨p.count + line.length, line.rtakeWhile (· ≠ sentinel), p.seenSentinel || decide (sentinel ∈ line)⟩ := by
  rw [Pending.push, foldl_byte, hp, List.nil_append]
  by_cases h : sentinel ∈ line
  · rw [if_pos h]
  · have hall : line.rtakeWhile (· ≠ sentinel) = line :=
      List.rtakeWhile_eq_self_iff.mpr fun b hb => decide_eq_true (ne_of_mem_of_not_mem hb h)
    rw [if_neg h, hall]

/-! ## Framing -/

/-- The reads give the stream, none of them empty. -/
def Splits (stream : List UInt8) (reads : List (List UInt8)) : Prop := reads.flatten = stream ∧ [] ∉ reads

/-- The stream in one read. -/
def unsplit (stream : List UInt8) : List (List UInt8) := buffered stream []

/-- The result of a response, with what is left as a stream. -/
def outcome (r : Except Text (Json × Nat × List (List UInt8))) : Except Text (Json × Nat × List UInt8) :=
  r.map fun (value, count, reads) => (value, count, reads.flatten)

theorem flatten_buffered (rest : List UInt8) (reads : List (List UInt8)) :
    (buffered rest reads).flatten = rest ++ reads.flatten := by
  unfold buffered
  split
  · rename_i h
    rw [h, List.nil_append]
  · rfl

theorem nil_not_mem_buffered {rest : List UInt8} {reads : List (List UInt8)} (h : [] ∉ reads) :
    [] ∉ buffered rest reads := by
  unfold buffered
  split
  · exact h
  · rename_i hrest
    simpa [Ne.symm hrest] using h

theorem unsplit_of_ne_nil {s : List UInt8} (h : s ≠ []) : unsplit s = [s] := if_neg h

/-- The part of a line that was read first can be taken in first. -/
theorem response_unsplit_part {a : List UInt8} (ha : newline ∉ a) (hne : a ≠ [])
    (p : Pending) (t : List UInt8) :
    outcome (response fromSlice token ending p (unsplit (a ++ t))) =
      if limit < p.count + a.length then .error "guest agent response exceeds 4 MiB"
      else outcome (response fromSlice token ending (p.push a) (unsplit t)) := by
  rw [unsplit_of_ne_nil (by simp [hne])]
  by_cases ht : newline ∈ t
  · obtain ⟨b, rest, rfl, hb⟩ := List.eq_append_cons_of_mem ht
    have hab : newline ∉ a ++ b := by simp [ha, hb]
    have hcount : p.count + (a ++ (b ++ [newline])).length = (p.push a).count + (b ++ [newline]).length := by
      rw [push_count, List.length_append, Nat.add_assoc]
    rw [unsplit_of_ne_nil (by simp), ← List.append_assoc, response_line _ _ _ hab,
      response_line _ _ _ hb, List.append_assoc a b,
      push_append, hcount]
    by_cases hlimit : limit < p.count + a.length
    · rw [if_pos hlimit, if_pos (by rw [push_count]; omega)]
      rfl
    · rw [if_neg hlimit]
  · by_cases hnil : t = []
    · subst hnil
      rw [List.append_nil, response_part _ _ _ ha hne]
      split <;> rfl
    · have hcount : p.count + (a ++ t).length = (p.push a).count + t.length := by
        rw [push_count, List.length_append, Nat.add_assoc]
      rw [unsplit_of_ne_nil hnil, response_part _ _ _ (by simp [ha, ht]) (by simp [hne]),
        response_part _ _ _ ht hnil, push_append,
        hcount]
      by_cases hlimit : limit < p.count + a.length
      · rw [if_pos hlimit, if_pos (by rw [push_count]; omega)]
        rfl
      · rw [if_neg hlimit]

/-- However the stream is split, the response is the one to the whole stream. -/
theorem response_split (p : Pending) {reads : List (List UInt8)} (h : [] ∉ reads) :
    outcome (response fromSlice token ending p reads) = outcome
      (response fromSlice token ending p (unsplit reads.flatten)) := by
  induction hn : (reads.map fun read => read.length + 1).sum using Nat.strong_induction_on
    generalizing p reads with
  | _ n ih =>
    cases reads with
    | nil => rfl
    | cons chunk reads =>
      obtain ⟨hchunk, hreads⟩ : [] ≠ chunk ∧ [] ∉ reads := by simpa using h
      rw [List.flatten_cons]
      by_cases hline : newline ∈ chunk
      · obtain ⟨a, rest, rfl, ha⟩ := List.eq_append_cons_of_mem hline
        have hrest : unsplit ((a ++ newline :: rest) ++ reads.flatten) =
            [a ++ newline :: (rest ++ reads.flatten)] := by
          rw [unsplit_of_ne_nil (by simp), List.append_assoc, List.cons_append]
        have hbuffered : buffered (rest ++ reads.flatten) [] = unsplit (buffered rest reads).flatten := by
          rw [flatten_buffered, unsplit]
        rw [hrest, response_line _ _ _ ha, response_line _ _ _ ha, hbuffered]
        split
        · rfl
        · split
          · refine ih _ ?_ _ (nil_not_mem_buffered hreads) rfl
            rw [← hn]
            unfold buffered
            split
            · simp
            · simp
          · rfl
          · rename_i value _
            simp only [outcome, Except.map]
            rw [unsplit, flatten_buffered, flatten_buffered, List.flatten_nil, List.append_nil]
      · rw [response_part _ _ _ hline (Ne.symm hchunk), response_unsplit_part hline (Ne.symm hchunk)]
        split
        · rfl
        · exact ih _ (by rw [← hn]; simp) _ hreads rfl

/-! ## Synchronizing -/

def IsLine (line : List UInt8) : Prop := ∃ a, newline ∉ a ∧ line = a ++ [newline]

/-- The bytes end with the end of a line. -/
def WholeLines (s : List UInt8) : Prop := s = [] ∨ s.getLast? = some newline

variable (fromSlice) in
/-- A line answers a token: a sentinel came before its end, and from its last sentinel on it is a JSON
value that returns the token. -/
def Answers (t : Nat) (before line : List UInt8) (value : Json) : Prop :=
  sentinel ∈ before ++ line ∧ fromSlice (line.rtakeWhile (· ≠ sentinel)) = .ok value ∧
    (value.get "return").bind Json.asU64 = some t

variable (fromSlice) in
/-- None of the lines answers. -/
def NoneAnswers (t : Nat) (before lines : List UInt8) : Prop :=
  ∀ a line b value, lines = a ++ (line ++ b) → WholeLines a → IsLine line →
    ¬ Answers fromSlice t (before ++ a) line value

/-- The state at the start of a line, after the bytes before it. -/
def atLine (before : List UInt8) : Pending := ⟨before.length, [], decide (sentinel ∈ before)⟩

theorem push_atLine (before line : List UInt8) :
    (atLine before).push line = { atLine (before ++ line) with bytes := line.rtakeWhile (· ≠ sentinel) } := by
  rw [push_line rfl]
  simp [atLine]

variable (hblank : ∀ bytes value, bytes.all isAsciiWhitespace = true → fromSlice bytes ≠ .ok value)

include hblank in
/-- While synchronizing a line is the answer or passed over. -/
theorem judge_sync (t : Nat) (before line : List UInt8) :
    (∃ value, judge fromSlice (some t) ((atLine before).push line) = .answer value ∧
      Answers fromSlice t before line value) ∨
      judge fromSlice (some t) ((atLine before).push line) = .skip ∧
        ∀ value, ¬ Answers fromSlice t before line value := by
  rw [push_atLine]
  unfold judge Answers
  by_cases hseen : sentinel ∈ before ++ line
  · simp only [atLine, hseen, decide_true, Option.isSome_some, Bool.not_true, Bool.and_false,
    Bool.false_eq_true, ↓reduceIte]
    cases hread : fromSlice (line.rtakeWhile (· ≠ sentinel)) with
    | error e =>
      right
      simp [-String.reduceToList]
    | ok value =>
      have hfull : (line.rtakeWhile (· ≠ sentinel)).all isAsciiWhitespace = false := by
        by_contra hall
        exact hblank _ value (by simpa using hall) hread
      by_cases htoken : (value.get "return").bind Json.asU64 = some t
      · left
        refine ⟨value, ?_, trivial, rfl, htoken⟩
        simp only [hfull, htoken, Option.any_some, ne_eq, not_true_eq_false, decide_false,
          Bool.false_eq_true, ↓reduceIte]
      · right
        refine ⟨?_, ?_⟩
        · simp only [hfull, htoken, Option.any_some, ne_eq, not_false_eq_true, decide_true,
            Bool.false_eq_true, ↓reduceIte]
        · rintro value' ⟨-, hvalue, hreturn⟩
          cases hvalue
          exact htoken hreturn
  · right
    exact ⟨by simp [atLine, hseen], fun value hanswer => hseen hanswer.1⟩

/-- The first line of a stream of lines. -/
theorem first_line {a t skipped line rest : List UInt8} (ha : newline ∉ a) (hskipped : WholeLines skipped)
    (hline : IsLine line) (h : a ++ newline :: t = skipped ++ (line ++ rest)) :
    (skipped = [] ∧ line = a ++ [newline] ∧ rest = t) ∨
      ∃ more, skipped = a ++ [newline] ++ more ∧ WholeLines more ∧ t = more ++ (line ++ rest) := by
  obtain ⟨b, hb, rfl⟩ := hline
  rcases hskipped with rfl | hlast
  · left
    have : a ++ newline :: t = b ++ newline :: rest := by simpa using h
    obtain ⟨rfl, rfl⟩ := Text.append_sep_inj ha hb this
    exact ⟨rfl, rfl, rfl⟩
  · right
    have hmem : newline ∈ skipped := List.mem_of_getLast? hlast
    obtain ⟨c, more, rfl, hc⟩ := List.eq_append_cons_of_mem hmem
    have : a ++ newline :: t = c ++ newline :: (more ++ (b ++ [newline] ++ rest)) := by simpa using h
    obtain ⟨rfl, rfl⟩ := Text.append_sep_inj ha hc this
    refine ⟨more, by simp, ?_, rfl⟩
    rw [List.getLast?_append] at hlast
    cases more with
    | nil => exact .inl rfl
    | cons m more =>
      right
      simpa [List.getLast?_cons_cons] using hlast

variable (fromSlice) in
/-- The stream has an answer within the limit, and no line before it answers. -/
def FirstAnswer (t : Nat) (before s : List UInt8) (value : Json) (count : Nat) (rest : List UInt8) : Prop :=
  ∃ skipped line, s = skipped ++ (line ++ rest) ∧ WholeLines skipped ∧ IsLine line ∧
    Answers fromSlice t (before ++ skipped) line value ∧ NoneAnswers fromSlice t before skipped ∧
    count = (before ++ skipped ++ line).length ∧ count ≤ limit

theorem NoneAnswers.tail {t : Nat} {before a more : List UInt8}
    (h : NoneAnswers fromSlice t before (a ++ [newline] ++ more)) :
    NoneAnswers fromSlice t (before ++ (a ++ [newline])) more := by
  intro b line c value hmore hb hline hanswer
  refine h (a ++ [newline] ++ b) line c value (by simp [hmore]) ?_ hline (by simpa using hanswer)
  right
  rcases hb with rfl | hlast
  · simp
  · rw [List.getLast?_append, hlast]
    rfl

theorem NoneAnswers.cons {t : Nat} {before a more : List UInt8} (ha : newline ∉ a)
    (hfirst : ∀ value, ¬ Answers fromSlice t before (a ++ [newline]) value)
    (h : NoneAnswers fromSlice t (before ++ (a ++ [newline])) more) :
    NoneAnswers fromSlice t before (a ++ [newline] ++ more) := by
  intro b line c value hlines hb hline hanswer
  have hlines' : a ++ newline :: more = b ++ (line ++ c) := by simpa using hlines
  obtain ⟨rfl, rfl, rfl⟩ | ⟨b', rfl, hb', hmore⟩ := first_line ha hb hline hlines'
  · exact hfirst value (by simpa using hanswer)
  · exact h b' line c value hmore hb' hline (by simpa using hanswer)

theorem noneAnswers_nil (t : Nat) (before : List UInt8) : NoneAnswers fromSlice t before [] := by
  rintro a line b value h - ⟨c, -, rfl⟩
  simp at h

theorem Answers.unique {t : Nat} {before line : List UInt8} {v w : Json}
    (hv : Answers fromSlice t before line v) (hw : Answers fromSlice t before line w) : v = w :=
  Except.ok.inj (hv.2.1.symm.trans hw.2.1)

/-- The first answer is the first line, or the first answer after it. -/
theorem firstAnswer_line {t : Nat} {before a tail rest : List UInt8} {value : Json}
    {count : Nat} (ha : newline ∉ a) :
    FirstAnswer fromSlice t before (a ++ newline :: tail) value count rest ↔
      (before ++ (a ++ [newline])).length ≤ limit ∧
        (Answers fromSlice t before (a ++ [newline]) value ∧
          count = (before ++ (a ++ [newline])).length ∧ rest = tail ∨
          (∀ v, ¬ Answers fromSlice t before (a ++ [newline]) v) ∧
            FirstAnswer fromSlice t (before ++ (a ++ [newline])) tail value count rest) := by
  constructor
  · rintro ⟨skipped, line, hsplit, hskipped, hline, hanswer, hnone, rfl, hle⟩
    obtain ⟨rfl, rfl, rfl⟩ | ⟨more, rfl, hmore, htail⟩ := first_line ha hskipped hline hsplit
    · rw [List.append_nil] at hanswer hle ⊢
      exact ⟨hle, .inl ⟨hanswer, rfl, rfl⟩⟩
    · have hassoc : before ++ (a ++ [newline] ++ more) = before ++ (a ++ [newline]) ++ more :=
        (List.append_assoc _ _ _).symm
      rw [hassoc] at hanswer hle ⊢
      refine ⟨?_, .inr ⟨fun v hv => ?_, more, line, htail, hmore, hline, hanswer, hnone.tail, rfl, hle⟩⟩
      · rw [List.append_assoc _ more, List.length_append] at hle
        omega
      · refine hnone [] (a ++ [newline]) more v (by simp) (.inl rfl) ⟨a, ha, rfl⟩ ?_
        rw [List.append_nil]
        exact hv
  · rintro ⟨hle, ⟨hanswer, rfl, rfl⟩ | ⟨hfirst, skipped, line, rfl, hskipped, hline,
    hanswer, hnone, rfl, hle'⟩⟩
    · refine ⟨[], a ++ [newline], by simp, .inl rfl, ⟨a, ha, rfl⟩, ?_, noneAnswers_nil t before, ?_, hle⟩
      · rw [List.append_nil]
        exact hanswer
      · rw [List.append_nil]
    · have hassoc : before ++ (a ++ [newline]) ++ skipped = before ++ (a ++ [newline] ++ skipped) :=
        List.append_assoc _ _ _
      rw [hassoc] at hanswer hle' ⊢
      refine ⟨a ++ [newline] ++ skipped, line, by simp, ?_, hline, hanswer, hnone.cons ha hfirst, rfl, hle'⟩
      right
      rcases hskipped with rfl | hlast
      · simp
      · rw [List.getLast?_append, hlast]
        rfl

theorem not_firstAnswer {t : Nat} {before s rest : List UInt8} {value : Json}
    {count : Nat} (hs : newline ∉ s) :
    ¬ FirstAnswer fromSlice t before s value count rest := by
  rintro ⟨skipped, line, rfl, -, ⟨a, -, rfl⟩, -⟩
  simp at hs

include hblank in
/-- A synchronization gives the first answer of the stream. -/
theorem response_sync (t : Nat) (before s : List UInt8) (value : Json) (count : Nat) (rest : List UInt8) :
    outcome (response fromSlice (some t) ending (atLine before) (unsplit s)) = .ok (value, count, rest) ↔
      FirstAnswer fromSlice t before s value count rest := by
  induction hn : s.length using Nat.strong_induction_on generalizing before s with
  | _ n ih =>
    by_cases hs : newline ∈ s
    · obtain ⟨a, tail, rfl, ha⟩ := List.eq_append_cons_of_mem hs
      have hcount : (atLine before).count + (a ++ [newline]).length = (before ++ (a ++ [newline])).length :=
        (List.length_append).symm
      rw [unsplit_of_ne_nil (by simp), response_line _ _ _ ha, hcount, firstAnswer_line ha]
      by_cases hlimit : limit < (before ++ (a ++ [newline])).length
      · rw [if_pos hlimit]
        constructor
        · intro h
          cases h
        · rintro ⟨hle, -⟩
          omega
      · rw [if_neg hlimit, and_iff_right (Nat.le_of_not_lt hlimit)]
        obtain ⟨found, hjudge, hanswer⟩ | ⟨hjudge, hnone⟩ := judge_sync hblank t before (a ++ [newline])
        · rw [hjudge]
          have houtcome : outcome (.ok (found, ((atLine before).push (a ++ [newline])).count,
              buffered tail [])) =
              .ok (found, (before ++ (a ++ [newline])).length, tail) := by
            rw [push_count, hcount]
            simp [outcome, Except.map, flatten_buffered]
          simp only [houtcome]
          constructor
          · intro h
            cases h
            exact .inl ⟨hanswer, rfl, rfl⟩
          · rintro (⟨hvalue, rfl, rfl⟩ | ⟨hnone, -⟩)
            · rw [hanswer.unique hvalue]
            · exact absurd hanswer (hnone found)
        · rw [hjudge]
          have hnext : { (atLine before).push (a ++ [newline]) with bytes := [] } =
              atLine (before ++ (a ++ [newline])) := by
            rw [push_atLine]
            rfl
          simp only [hnext]
          rw [← unsplit, ih tail.length (by rw [← hn, List.length_append, List.length_cons]; omega) _ _ rfl]
          constructor
          · intro h
            exact .inr ⟨hnone, h⟩
          · rintro (⟨hvalue, -⟩ | ⟨-, h⟩)
            · exact absurd hvalue (hnone value)
            · exact h
    · refine iff_of_false ?_ (not_firstAnswer hs)
      by_cases hnil : s = []
      · subst hnil
        rw [show unsplit [] = [] from rfl, response_nil]
        intro h
        cases h
      · rw [unsplit_of_ne_nil hnil, response_part _ _ _ hs hnil, response_nil]
        intro h
        split at h <;> cases h

theorem outcome_ok {r : Except Text (Json × Nat × List (List UInt8))} {value : Json}
    {count : Nat} {rest : List UInt8} :
    outcome r = .ok (value, count, rest) ↔ ∃ left, r = .ok (value, count, left) ∧ left.flatten = rest := by
  constructor
  · intro h
    match r, h with
    | .ok (_, _, left), h =>
      cases h
      exact ⟨left, rfl, rfl⟩
  · rintro ⟨left, rfl, rfl⟩
    rfl

theorem nil_not_mem_response {p : Pending} {reads left : List (List UInt8)} {value : Json} {count : Nat}
    (hreads : [] ∉ reads) (h : response fromSlice token ending p reads = .ok (value, count, left)) :
    [] ∉ left := by
  induction hn : (reads.map fun read => read.length + 1).sum using Nat.strong_induction_on
    generalizing p reads with
  | _ n ih =>
    cases reads with
    | nil =>
      rw [response_nil] at h
      cases h
    | cons chunk reads =>
      obtain ⟨hchunk, hrest⟩ : [] ≠ chunk ∧ [] ∉ reads := by simpa using hreads
      by_cases hline : newline ∈ chunk
      · obtain ⟨a, rest, rfl, ha⟩ := List.eq_append_cons_of_mem hline
        rw [response_line _ _ _ ha] at h
        split at h
        · cases h
        · split at h
          · refine ih _ ?_ (nil_not_mem_buffered hrest) h rfl
            rw [← hn]
            unfold buffered
            split <;> simp
          · cases h
          · cases h
            exact nil_not_mem_buffered hrest
      · rw [response_part _ _ _ hline (Ne.symm hchunk)] at h
        split at h
        · cases h
        · exact ih _ (by rw [← hn]; simp) hrest h rfl

variable (fromSlice ending) in
include hblank in
/-- Whatever the reads are, a response is the one to the whole stream. A synchronization succeeds
exactly if the stream has an answer within the limit, with the first one, and the next response is to
the bytes after it. -/
theorem response_whatever_framing (s : List UInt8) (reads : List (List UInt8)) (hsplit : Splits s reads) :
    (∀ token, outcome (response fromSlice token ending start reads) = outcome
      (response fromSlice token ending start (unsplit s))) ∧
    ∀ t value count rest,
      ((∃ left, response fromSlice (some t) ending start reads = .ok (value, count, left) ∧
        left.flatten = rest) ↔
        FirstAnswer fromSlice t [] s value count rest) ∧
      ∀ left, response fromSlice (some t) ending start reads = .ok (value, count, left) → ∀ token,
        outcome (response fromSlice token ending start left) =
          outcome (response fromSlice token ending start (unsplit (s.drop count))) := by
  obtain ⟨rfl, hreads⟩ := hsplit
  have hstart : start = atLine [] := rfl
  have hsync (t : Nat) (value : Json) (count : Nat) (rest : List UInt8) :
      (∃ left, response fromSlice (some t) ending start reads = .ok (value, count, left) ∧
        left.flatten = rest) ↔
        FirstAnswer fromSlice t [] reads.flatten value count rest := by
    rw [← outcome_ok, response_split start hreads, hstart, response_sync hblank]
  refine ⟨fun token => response_split start hreads, fun t value count rest =>
    ⟨hsync t value count rest, fun left hleft token => ?_⟩⟩
  obtain ⟨skipped, line, hs, -, -, -, -, hcount, -⟩ :=
    (hsync t value count left.flatten).mp ⟨left, hleft, rfl⟩
  have hdrop : reads.flatten.drop count = left.flatten := by
    rw [hs, hcount, List.nil_append, ← List.append_assoc, List.drop_left]
  rw [hdrop]
  exact response_split start (nil_not_mem_response hreads hleft)

end

def ascii (t : Text) : List UInt8 := t.map fun c => c.toNat.toUInt8

/-- A reader that knows one reply. -/
def readReply (bytes : List UInt8) : Except Text Json :=
  if bytes = ascii "\x7b\"return\":7\x7d\n" then .ok (.obj [("return", .int 7)]) else .error "expected value"

/-- An error, then the reply after its sentinel and across two reads. -/
theorem response_whatever_framing_reply :
    FirstAnswer readReply 7 [] (ascii "\x7b\"error\":1\x7d\n" ++ sentinel :: ascii
      "\x7b\"return\":7\x7d\nrest")
      (.obj [("return", .int 7)]) 26 (ascii "rest") := by
  have hreads := response_whatever_framing readReply "timeout" (fun bytes value hbytes hread => by
      unfold readReply at hread
      split at hread
      · rename_i h
        subst h
        revert hbytes
        decide
      · cases hread)
    (ascii "\x7b\"error\":1\x7d\n" ++ sentinel :: ascii "\x7b\"return\":7\x7d\nrest")
    [ascii "\x7b\"error\":1\x7d\n" ++ sentinel :: ascii "\x7b\"ret",
      ascii "urn\":7\x7d\nrest"] ⟨by decide, by decide⟩
  refine ((hreads.2 7 _ _ _).1).mp ⟨[ascii "rest"], ?_, by decide⟩
  decide +kernel

end HomeStack.GuestResponse
