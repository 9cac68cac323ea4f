import HomeStack.Tasks

/-! The log of a task as it is followed (`wait_task_tracking`): the status is read first, then the log
page by page, and every line is reported once. -/

namespace HomeStack.TaskLogs

/-- What is reported of a job. -/
inductive JobEvent (P : Type)
  | taskStarted (node upid kind : Text) (vmid : Option Nat)
  | progress (transfer : P)
  | taskLog (upid : Text) (lines : List Text)
  | taskFinished (upid exitstatus : Text)

/-- Turns new lines of a task's log into progress. -/
structure LogTracker (S P : Type) where
  progress : S → Text → S × Option P

/-- What Proxmox answers to the calls about the task, by the number of calls before. -/
structure Client where
  status : Nat → Except CoreError Json
  log : Nat → (start limit : Nat) → Except CoreError Json
  /-- The deadline is over after so many calls. -/
  late : Nat → Bool

/-- Where following a task is. -/
structure Following (S P : Type) where
  calls : Nat
  seen : Nat
  tracker : S
  events : List (JobEvent P)

variable {S P : Type}

namespace Following

def called (s : Following S P) : Following S P := { s with calls := s.calls + 1 }

def event (s : Following S P) (e : JobEvent P) : Following S P := { s with events := s.events ++ [e] }

/-- The new lines of a page: its progress, if there is any, and the lines. -/
def report (tracker : LogTracker S P) (upid : Text) (s : Following S P) (lines : List Text) (seen : Nat) :
    Following S P :=
  let (after, transfer) := tracker.progress s.tracker (List.intercalate "\n" lines)
  let s := { s with tracker := after, seen := seen }
  let s := match transfer with
    | some transfer => s.event (.progress transfer)
    | none => s
  s.event (.taskLog upid lines)

end Following

/-- The inner loop: the log from the last line seen, page by page. Without fuel it is `none`. -/
def pages (client : Client) (tracker : LogTracker S P) (upid : Text) :
    Nat → Following S P → Option (Following S P × Except CoreError Unit)
  | 0, _ => none
  | fuel + 1, s =>
    match client.log s.calls s.seen logPage with
    | .error e => some (s.called, .error e)
    | .ok log =>
      let entries := (log.asArray).getD []
      if placeholder entries then some (s.called, .ok ())
      else
        let (lines, seen) := newLines s.seen entries
        if lines.isEmpty then some (s.called, .ok ())
        else
          let s := s.called.report tracker upid lines seen
          if entries.length = logPage then pages client tracker upid fuel s else some (s, .ok ())

/-- The outer loop: the status, the new lines, and the end of the task. -/
def wait (client : Client) (tracker : LogTracker S P) (upid : Text) (timeoutSecs : Nat) :
    Nat → Following S P → Option (Following S P × Except CoreError TaskResult)
  | 0, _ => none
  | fuel + 1, s =>
    match client.status s.calls with
    | .error e => some (s.called, .error e)
    | .ok status =>
      match pages client tracker upid fuel s.called with
      | none => none
      | some (s, .error e) => some (s, .error e)
      | some (s, .ok ()) =>
        if (status.get "status").bind Json.asStr = some "stopped".toList then
          let exitstatus := ((status.get "exitstatus").bind Json.asStr).getD "unknown"
          some (s.event (.taskFinished upid exitstatus), .ok { upid := upid, exitstatus := exitstatus })
        else if client.late s.calls then
          some (s, .error (.failed ("Proxmox task " ++ upid ++ " did not finish within " ++
            Text.ofNat timeoutSecs ++ "s")))
        else wait client tracker upid timeoutSecs fuel s

def started (upid : Text) (fields : List Text) : JobEvent P :=
  .taskStarted (fields.getD 1 []) upid (fields.getD 5 []) (Text.parseNat (2 ^ 32) (fields.getD 6 []))

def waitTaskTracking (client : Client) (tracker : LogTracker S P) (upid : Text)
    (timeoutSecs fuel : Nat) (start : S) :
    Option (List (JobEvent P) × Except CoreError TaskResult) :=
  match upidFields upid with
  | none => some ([], .error (.unusable ("invalid task id " ++ Text.debug upid)))
  | some fields =>
    (wait client tracker upid timeoutSecs fuel ⟨0, 0, start, [started upid fields]⟩).map fun (s, result) =>
      (s.events, result)

/-! ## A growing log -/

/-- A line of Proxmox's answer. -/
def entry (n : Nat) (text : Text) : Json := .obj [("n", .int n), ("t", .str text)]

/-- What Proxmox answers of a log of so many lines; an empty log has a made-up line. -/
def page (line : Nat → Text) (visible start : Nat) : List Json :=
  if visible = 0 then [entry 1 "no content"]
  else (List.range' start (min (visible - start) logPage)).map fun k => entry (k + 1) (line k)

/-- The lines from `start` to `stop`. -/
def lines (line : Nat → Text) (start stop : Nat) : List Text := (List.range' start (stop - start)).map line

/-- The task has ended, by a status. -/
def Stopped (status : Json) : Prop := (status.get "status").bind Json.asStr = some "stopped".toList

/-- Line `n + 1` of the log is `line n`, and at a call so many lines are there. Lines are only added,
the first is not the made-up one, the log is complete when the status says so, and any call may fail. -/
structure Growing (client : Client) (line : Nat → Text) (visible : Nat → Nat) : Prop where
  grows : Monotone visible
  first : line 0 ≠ "no content"
  log : ∀ call start, client.log call start logPage = .ok (.arr (page line (visible call) start)) ∨
    ∃ e, client.log call start logPage = .error e
  complete : ∀ call status, client.status call = .ok status → Stopped status → ∀ later, call ≤ later →
    visible later = visible call

/-! ## A page -/

theorem entry_n (n : Nat) (t : Text) : ((entry n t).get "n").bind Json.asU64 = some n := by
  have hget : (entry n t).get "n" = some (.int n) := rfl
  rw [hget, Option.bind_some, Json.asU64, if_pos (Int.natCast_nonneg n)]
  rfl

theorem entry_t (n : Nat) (t : Text) : ((entry n t).get "t").bind Json.asStr = some t := rfl

/-- The lines of a page follow each other, so that each is new. -/
theorem newLines_range (line : Nat → Text) (start count : Nat) :
    newLines start ((List.range' start count).map fun k => entry (k + 1) (line k)) =
      ((List.range' start count).map line, start + count) := by
  have hfold : ∀ f : List Text × Nat → Json → List Text × Nat,
      (∀ acc k, f (acc, k) (entry (k + 1) (line k)) = (acc ++ [line k], k + 1)) →
        ∀ (count start : Nat) (acc : List Text),
        ((List.range' start count).map fun k => entry (k + 1) (line k)).foldl f (acc, start) =
          (acc ++ (List.range' start count).map line, start + count) := by
    intro f hf count
    induction count with
    | zero =>
      intro start acc
      simp
    | succ count ih =>
      intro start acc
      rw [List.range'_succ, List.map_cons, List.foldl_cons, List.map_cons, hf, ih (start + 1)]
      simp [Nat.add_assoc, Nat.add_comm 1 count]
  refine hfold _ (fun acc k => ?_) count start []
  dsimp only
  rw [entry_n, entry_t, Option.getD_some]
  dsimp only
  rw [if_pos (show k + 1 > k by omega)]

/-- The made-up line is the answer of an empty log only. -/
theorem placeholder_page {line : Nat → Text} (hfirst : line 0 ≠ "no content") (visible start : Nat) :
    placeholder (page line visible start) = decide (visible = 0) := by
  unfold page
  by_cases hzero : visible = 0
  · rw [if_pos hzero, decide_eq_true hzero]
    rfl
  · rw [if_neg hzero, decide_eq_false hzero]
    rcases hcount : min (visible - start) logPage with _ | _ | count
    · rfl
    · simp only [zero_add, List.range'_one, List.map_cons, List.map_nil, placeholder]
      rw [entry_n, entry_t]
      rcases Nat.eq_zero_or_pos start with rfl | hpos
      · simp [-String.reduceToList, hfirst]
      · simp [hpos.ne']
    · rfl

/-! ## What is reported -/

/-- The lines of the log events, together. -/
def reported (events : List (JobEvent P)) : List Text :=
  events.flatMap fun e => match e with
    | .taskLog _ lines => lines
    | _ => []

/-- The events between the start and the end. -/
def Between (events : List (JobEvent P)) : Prop :=
  ∀ e ∈ events, (∃ transfer, e = .progress transfer) ∨ ∃ upid lines, e = .taskLog upid lines

/-- What following adds: events between the start and the end, whose lines are those from the last one
seen. -/
structure Follows (line : Nat → Text) (s s' : Following S P) : Prop where
  calls : s.calls ≤ s'.calls
  seen : s.seen ≤ s'.seen
  events : ∃ more, s'.events = s.events ++ more ∧ Between more ∧ reported more = lines line s.seen s'.seen

theorem Follows.refl (line : Nat → Text) (s : Following S P) : Follows line s s :=
  ⟨le_refl _, le_refl _, [], by simp, nofun, by simp [reported, lines]⟩

theorem lines_append (line : Nat → Text) {a b c : Nat} (hab : a ≤ b) (hbc : b ≤ c) :
    lines line a b ++ lines line b c = lines line a c := by
  unfold lines
  rw [← List.map_append]
  have hrange := List.range'_append_1 (s := a) (m := b - a) (n := c - b)
  rw [show a + (b - a) = b by omega, show b - a + (c - b) = c - a by omega] at hrange
  rw [hrange]

theorem Follows.trans {line : Nat → Text} {s s' s'' : Following S P} (h : Follows line s s')
    (h' : Follows line s' s'') :
    Follows line s s'' := by
  obtain ⟨more, hmore, hbetween, hlines⟩ := h.events
  obtain ⟨more', hmore', hbetween', hlines'⟩ := h'.events
  refine ⟨h.calls.trans h'.calls, h.seen.trans h'.seen, more ++ more', ?_, ?_, ?_⟩
  · rw [hmore', hmore, List.append_assoc]
  · intro e he
    rcases List.mem_append.mp he with he | he
    · exact hbetween e he
    · exact hbetween' e he
  · rw [← lines_append line h.seen h'.seen, ← hlines, ← hlines']
    simp [reported]

theorem follows_called {line : Nat → Text} (s : Following S P) : Follows line s s.called :=
  ⟨Nat.le_succ _, le_refl _, [],
    by simp [Following.called], nofun, by simp [reported, lines, Following.called]⟩

theorem report_eq (tracker : LogTracker S P) (upid : Text) (s : Following S P)
    (new : List Text) (seen : Nat) :
    ∃ after more, s.report tracker upid new seen = ⟨s.calls, seen, after, s.events ++ more⟩ ∧ Between more ∧
      reported more = new := by
  unfold Following.report
  generalize tracker.progress s.tracker (List.intercalate "\n" new) = answer
  obtain ⟨after, _ | transfer⟩ := answer
  · refine ⟨after, [.taskLog upid new], rfl, ?_, by simp [reported]⟩
    intro e he
    rw [List.mem_singleton.mp he]
    exact Or.inr ⟨_, _, rfl⟩
  · refine ⟨after, [.progress transfer, .taskLog upid new], by simp [Following.event], ?_, by simp [reported]⟩
    intro e he
    rcases List.mem_cons.mp he with rfl | he
    · exact Or.inl ⟨_, rfl⟩
    · rw [List.mem_singleton.mp he]
      exact Or.inr ⟨_, _, rfl⟩

/-- One page: the new lines are those from the last one seen. -/
structure Page (line : Nat → Text) (visible : Nat) (seen : Nat) (entries : List Json) : Prop where
  none : placeholder entries = true → visible = 0
  some : placeholder entries = false → newLines seen entries =
    (lines line seen (min visible (seen + logPage)), min visible (seen + logPage))
  full : placeholder entries = false → entries.length = min (visible - seen) logPage

theorem page_spec {line : Nat → Text} (hfirst : line 0 ≠ "no content") {visible seen : Nat}
    (hseen : seen ≤ visible) :
    Page line visible seen (page line visible seen) := by
  have hplaceholder := placeholder_page hfirst visible seen
  constructor
  · intro h
    rw [hplaceholder] at h
    exact of_decide_eq_true h
  · intro h
    rw [hplaceholder] at h
    rw [page, if_neg (of_decide_eq_false h), newLines_range, lines]
    have hcount : min visible (seen + logPage) - seen = min (visible - seen) logPage := by omega
    have hlast : min visible (seen + logPage) = seen + min (visible - seen) logPage := by omega
    rw [hcount, hlast]
  · intro h
    rw [hplaceholder] at h
    rw [page, if_neg (of_decide_eq_false h), List.length_map, List.length_range']

/-- What a run of pages does: without an error, all is seen that was there at one of its calls. -/
structure Read (line : Nat → Text) (visible : Nat → Nat) (s s' : Following S P)
    (result : Except CoreError Unit) : Prop extends Follows line s s' where
  more : s.calls < s'.calls
  upTo : ∃ call, s.calls ≤ call ∧ call < s'.calls ∧ s'.seen ≤ visible call
  all : result = .ok () → ∃ call, s.calls ≤ call ∧ call < s'.calls ∧ s'.seen = visible call

/-- A page with new lines, and the pages after it when it is full. -/
theorem pages_page {client : Client} {line : Nat → Text} (visible : Nat) (hfirst : line 0 ≠ "no content")
    {s : Following S P} (hlog : client.log s.calls s.seen logPage = .ok (.arr (page line visible s.seen)))
    (hnew : s.seen < visible) (tracker : LogTracker S P) (upid : Text) (fuel : Nat) :
    pages client tracker upid (fuel + 1) s =
      let s₁ := s.called.report tracker upid (lines line s.seen (min visible (s.seen + logPage)))
        (min visible (s.seen + logPage))
      if min (visible - s.seen) logPage = logPage then pages client tracker upid fuel s₁
      else some (s₁, .ok ()) := by
  have hpage := page_spec hfirst hnew.le
  have hentries : ((Json.arr (page line visible s.seen)).asArray).getD [] = page line visible s.seen := rfl
  have hplaceholder : placeholder (page line visible s.seen) = false := by
    rw [placeholder_page hfirst]
    exact decide_eq_false (by omega)
  have hlines : (lines line s.seen (min visible (s.seen + logPage))).isEmpty = false := by
    rw [List.isEmpty_eq_false_iff_exists_mem, lines]
    exact ⟨line s.seen, List.mem_map.mpr ⟨s.seen,
      List.mem_range'_1.mpr ⟨le_refl _, by simp only [logPage]; omega⟩, rfl⟩⟩
  rw [pages, hlog]
  dsimp only
  rw [hentries, hplaceholder, if_neg Bool.false_ne_true, hpage.some hplaceholder, hpage.full hplaceholder]
  dsimp only
  rw [hlines, if_neg Bool.false_ne_true]

/-- A page without new lines. -/
theorem pages_read_all {client : Client} {line : Nat → Text} (hfirst : line 0 ≠ "no content")
    {s : Following S P} (hlog : client.log s.calls s.seen logPage = .ok (.arr (page line s.seen s.seen)))
    (tracker : LogTracker S P) (upid : Text) (fuel : Nat) :
    pages client tracker upid (fuel + 1) s = some (s.called, .ok ()) := by
  have hpage := page_spec hfirst (le_refl s.seen)
  have hentries : ((Json.arr (page line s.seen s.seen)).asArray).getD [] = page line s.seen s.seen := rfl
  rw [pages, hlog]
  dsimp only
  rw [hentries]
  cases hplaceholder : placeholder (page line s.seen s.seen) with
  | true => exact if_pos rfl
  | false =>
    have hlines : (lines line s.seen s.seen).isEmpty = true := by simp [lines]
    rw [if_neg Bool.false_ne_true, hpage.some hplaceholder, Nat.min_eq_left (Nat.le_add_right ..)]
    dsimp only
    rw [hlines, if_pos rfl]

/-- One page, and the pages after it when it is full. -/
theorem pages_succ {client : Client} {line : Nat → Text} {visible : Nat → Nat}
    (hgrow : Growing client line visible) (tracker : LogTracker S P) (upid : Text) (fuel : Nat)
    {s : Following S P} (hseen : s.seen ≤ visible s.calls) :
    (∃ e, client.log s.calls s.seen logPage = .error e ∧
      pages client tracker upid (fuel + 1) s = some (s.called, .error e)) ∨
      (s.seen = visible s.calls ∧ pages client tracker upid (fuel + 1) s = some (s.called, .ok ())) ∨
      ∃ s₁, Follows line s s₁ ∧ s₁.calls = s.calls + 1 ∧ s.seen < s₁.seen ∧
        ((s₁.seen = visible s.calls ∧ pages client tracker upid (fuel + 1) s = some (s₁, .ok ())) ∨
          (s₁.seen ≤ visible s.calls ∧ pages client tracker upid
            (fuel + 1) s = pages client tracker upid fuel s₁)) := by
  rcases hgrow.log s.calls s.seen with hlog | ⟨e, hlog⟩
  · right
    rcases hseen.lt_or_eq with hnew | hall
    · right
      have hstep := pages_page _ hgrow.first hlog hnew tracker upid fuel
      obtain ⟨after, more, hreport, hbetween, hreported⟩ := report_eq tracker upid s.called
        (lines line s.seen (min (visible s.calls) (s.seen + logPage)))
        (min (visible s.calls) (s.seen + logPage))
      rw [hreport] at hstep
      refine ⟨⟨s.calls + 1, min (visible s.calls) (s.seen + logPage), after, s.events ++ more⟩,
        ⟨Nat.le_succ _, ?_, more, rfl, hbetween, hreported⟩, rfl, ?_, ?_⟩
      · simp only [logPage]
        omega
      · simp only [logPage]
        omega
      · by_cases hfull : min (visible s.calls - s.seen) logPage = logPage
        · exact Or.inr ⟨Nat.min_le_left _ _, hstep.trans (if_pos hfull)⟩
        · refine Or.inl ⟨?_, hstep.trans (if_neg hfull)⟩
          simp only [logPage] at hfull ⊢
          omega
    · exact Or.inl ⟨hall, pages_read_all hgrow.first (hall ▸ hlog) tracker upid fuel⟩
  · left
    refine ⟨e, hlog, ?_⟩
    unfold pages
    rw [hlog]

theorem pages_read {client : Client} {line : Nat → Text} {visible : Nat → Nat}
    (hgrow : Growing client line visible) (tracker : LogTracker S P) (upid : Text) {fuel : Nat}
    {s s' : Following S P} {result : Except CoreError Unit} (hseen : s.seen ≤ visible s.calls)
    (h : pages client tracker upid fuel s = some (s', result)) : Read line visible s s' result := by
  induction fuel generalizing s with
  | zero => cases h
  | succ fuel ih =>
    have hcall : s.calls < s.calls + 1 := Nat.lt_succ_self _
    rcases pages_succ hgrow tracker upid fuel hseen with ⟨e, -, hpages⟩ | ⟨hall, hpages⟩ | ⟨s₁, hfollows,
      hcalls, hnew, ⟨hall, hpages⟩ | ⟨hle, hpages⟩⟩
    · rw [hpages] at h
      cases h
      exact ⟨follows_called s, hcall, ⟨s.calls, le_refl _, hcall, hseen⟩, nofun⟩
    · rw [hpages] at h
      cases h
      exact ⟨follows_called s, hcall, ⟨s.calls, le_refl _, hcall, hseen⟩,
        fun _ => ⟨s.calls, le_refl _, hcall, hall⟩⟩
    · rw [hpages] at h
      cases h
      exact ⟨hfollows, by omega, ⟨s.calls, le_refl _, by omega, hall.le⟩,
        fun _ => ⟨s.calls, le_refl _, by omega, hall⟩⟩
    · rw [hpages] at h
      have hgrown : s₁.seen ≤ visible s₁.calls := hle.trans (hgrow.grows (by omega))
      have hread := ih hgrown h
      obtain ⟨call, hfrom, hto, hupTo⟩ := hread.upTo
      refine ⟨hfollows.trans hread.toFollows, ?_, ⟨call, by omega, hto, hupTo⟩, fun hok => ?_⟩
      · have := hread.more
        omega
      · obtain ⟨call, hfrom, hto, hall⟩ := hread.all hok
        exact ⟨call, by omega, hto, hall⟩

/-- A log of bounded length is read to its end. -/
theorem pages_ends {client : Client} {line : Nat → Text} {visible : Nat → Nat}
    (hgrow : Growing client line visible) (tracker : LogTracker S P) (upid : Text) {bound : Nat}
    (hbound : ∀ call, visible call ≤ bound) {fuel : Nat} {s : Following S P}
    (hseen : s.seen ≤ visible s.calls) (hfuel : bound - s.seen < fuel) :
    ∃ s' result, pages client tracker upid fuel s = some (s', result) ∧
      (result = .ok () ∨ ∃ e call start, client.log call start logPage = .error e) := by
  induction fuel generalizing s with
  | zero => omega
  | succ fuel ih =>
    rcases pages_succ hgrow tracker upid fuel hseen with ⟨e, hlog, hpages⟩ | ⟨-, hpages⟩ | ⟨s₁, hfollows,
      hcalls, hnew, ⟨-, hpages⟩ | ⟨hle, hpages⟩⟩
    · exact ⟨_, _, hpages, Or.inr ⟨e, _, _, hlog⟩⟩
    · exact ⟨_, _, hpages, Or.inl rfl⟩
    · exact ⟨_, _, hpages, Or.inl rfl⟩
    · rw [hpages]
      have hgrown : s₁.seen ≤ visible s₁.calls := hle.trans (hgrow.grows (by omega))
      have := hbound s.calls
      exact ih hgrown (by omega)

/-! ## The whole task -/

/-- What following a task does: an error leaves a part of the log reported, the end all of it. -/
structure Waited (line : Nat → Text) (visible : Nat → Nat) (upid : Text) (s s' : Following S P)
    (result : Except CoreError TaskResult) :
    Prop where
  error : ∀ e, result = .error e → Follows line s s' ∧ ∃ call, s'.seen ≤ visible call
  ok : ∀ r, result = .ok r → ∃ before, Follows line s before ∧
    s' = before.event (.taskFinished upid r.exitstatus) ∧
    ∃ call, ∀ later, call ≤ later → visible later = before.seen

section

variable {client : Client} {tracker : LogTracker S P} {upid : Text} (timeoutSecs : Nat) {fuel : Nat}
  {s s₁ : Following S P} {status : Json}

/-- The task goes on. -/
theorem wait_running (hstatus : client.status s.calls = .ok status)
    (hpages : pages client tracker upid fuel s.called = some (s₁, .ok ())) (hrunning : ¬ Stopped status)
    (hlate : client.late s₁.calls = false) :
    wait client tracker upid timeoutSecs (fuel + 1) s = wait client tracker upid timeoutSecs fuel s₁ := by
  unfold Stopped at hrunning
  rw [wait, hstatus]
  dsimp only
  rw [hpages]
  dsimp only
  rw [if_neg hrunning, hlate, if_neg Bool.false_ne_true]

/-- The task has ended. -/
theorem wait_stopped (hstatus : client.status s.calls = .ok status)
    (hpages : pages client tracker upid fuel s.called = some (s₁, .ok ())) (hstopped : Stopped status) :
    wait client tracker upid timeoutSecs (fuel + 1) s =
      let exitstatus := ((status.get "exitstatus").bind Json.asStr).getD "unknown"
      some (s₁.event (.taskFinished upid exitstatus), .ok { upid := upid, exitstatus := exitstatus }) := by
  unfold Stopped at hstopped
  rw [wait, hstatus]
  dsimp only
  rw [hpages]
  dsimp only
  rw [if_pos hstopped]

end

theorem wait_waited {client : Client} {line : Nat → Text} {visible : Nat → Nat}
    (hgrow : Growing client line visible) (tracker : LogTracker S P) (upid : Text) (timeoutSecs : Nat)
    {fuel : Nat} {s s' : Following S P} {result : Except CoreError TaskResult}
    (hseen : s.seen ≤ visible s.calls) (h : wait client tracker upid timeoutSecs fuel s = some (s', result)) :
    Waited line visible upid s s' result := by
  induction fuel generalizing s with
  | zero => cases h
  | succ fuel ih =>
    unfold wait at h
    have hcalled : s.called.seen ≤ visible s.called.calls := hseen.trans (hgrow.grows (Nat.le_succ _))
    cases hstatus : client.status s.calls with
    | error e =>
      rw [hstatus] at h
      cases h
      exact ⟨fun e' _ => ⟨follows_called s, s.calls, hseen⟩, nofun⟩
    | ok status =>
      rw [hstatus] at h
      dsimp only at h
      cases hpages : pages client tracker upid fuel s.called with
      | none =>
        rw [hpages] at h
        cases h
      | some after =>
        obtain ⟨s₁, outcome⟩ := after
        have hread := pages_read hgrow tracker upid hcalled hpages
        have hfollows := (follows_called s).trans hread.toFollows
        obtain ⟨call, hfrom, hto, hupTo⟩ := hread.upTo
        rw [hpages] at h
        cases outcome with
        | error e =>
          cases h
          exact ⟨fun e' _ => ⟨hfollows, call, hupTo⟩, nofun⟩
        | ok =>
          dsimp only at h
          split at h
          · -- the status was read before the log, so the log is complete
            rename_i hstopped
            cases h
            obtain ⟨last, hlast, -, hall⟩ := hread.all rfl
            have hcomplete := hgrow.complete s.calls status hstatus hstopped
            have hcalls : s.called.calls = s.calls + 1 := rfl
            refine ⟨nofun, fun r hr => ⟨s₁, hfollows, ?_, s.calls, fun later hlater => ?_⟩⟩
            · cases hr
              rfl
            · rw [hcomplete later hlater, hall, hcomplete last (by omega)]
          · split at h
            · cases h
              exact ⟨fun e' _ => ⟨hfollows, call, hupTo⟩, nofun⟩
            · have hrest := ih (hupTo.trans (hgrow.grows hto.le)) h
              refine ⟨fun e he => ?_, fun r hr => ?_⟩
              · obtain ⟨hmore, hcall⟩ := hrest.error e he
                exact ⟨hfollows.trans hmore, hcall⟩
              · obtain ⟨before, hmore, heq, hcall⟩ := hrest.ok r hr
                exact ⟨before, hfollows.trans hmore, heq, hcall⟩

/-- Where no call fails and the task ends in time, it is followed to its end. -/
theorem wait_ends {client : Client} {line : Nat → Text} {visible : Nat → Nat}
    (hgrow : Growing client line visible) (tracker : LogTracker S P) (upid : Text) (timeoutSecs : Nat)
    {bound stop : Nat} (hbound : ∀ call, visible call ≤ bound)
    (hstatus : ∀ call, ∃ status, client.status call = .ok status ∧ (stop ≤ call → Stopped status))
    (hlog : ∀ call start e, client.log call start logPage ≠ .error e)
    (hlate : ∀ call, client.late call = false) {fuel : Nat} {s : Following S P}
    (hseen : s.seen ≤ visible s.calls) (hfuel : bound + (stop - s.calls) + 1 < fuel) :
    ∃ s' r, wait client tracker upid timeoutSecs fuel s = some (s', .ok r) := by
  induction fuel generalizing s with
  | zero => omega
  | succ fuel ih =>
    unfold wait
    have hcalled : s.called.seen ≤ visible s.called.calls := hseen.trans (hgrow.grows (Nat.le_succ _))
    obtain ⟨status, hcall, hstop⟩ := hstatus s.calls
    obtain ⟨s₁, outcome, hpages, houtcome⟩ :=
      pages_ends hgrow tracker upid hbound hcalled (show bound - s.called.seen < fuel by omega)
    have hok : outcome = .ok () := houtcome.resolve_right fun ⟨e, call, start, he⟩ => hlog call start e he
    subst hok
    have hread := pages_read hgrow tracker upid hcalled hpages
    obtain ⟨call, hfrom, hto, hupTo⟩ := hread.upTo
    have hcalls : s.called.calls = s.calls + 1 := rfl
    rw [hcall]
    dsimp only
    rw [hpages]
    dsimp only
    split
    · exact ⟨_, _, rfl⟩
    · rename_i hrunning
      rw [hlate, if_neg Bool.false_ne_true]
      have hbefore : s.calls < stop := by
        by_contra hge
        exact hrunning (hstop (not_lt.mp hge))
      exact ih (hupTo.trans (hgrow.grows hto.le)) (by omega)

/-- All the lines of a log, each once: those that are there after some call. -/
def Complete (line : Nat → Text) (visible : Nat → Nat) (events : List (JobEvent P)) : Prop :=
  ∃ call, ∀ later, call ≤ later → reported events = lines line 0 (visible later)

/-- What a run reports. An error leaves a first part of the log; the end all of it, between the start
and the end of the task. -/
structure ReportedOnce (line : Nat → Text) (visible : Nat → Nat) (events : List (JobEvent P))
    (result : Except CoreError TaskResult) :
    Prop where
  error : ∀ e, result = .error e → (∀ upid status, .taskFinished upid status ∉ events) ∧
    ∃ n call, n ≤ visible call ∧ reported events = lines line 0 n
  ok : ∀ r, result = .ok r → ∃ first more, events = first :: (more ++ [.taskFinished r.upid r.exitstatus]) ∧
    Between more ∧
    (∃ node upid kind vmid, first = .taskStarted node upid kind vmid) ∧ Complete line visible events

theorem wait_upid {client : Client} {tracker : LogTracker S P} {upid : Text} {timeoutSecs fuel : Nat}
    {s s' : Following S P} {r : TaskResult}
    (h : wait client tracker upid timeoutSecs fuel s = some (s', .ok r)) : r.upid = upid := by
  induction fuel generalizing s with
  | zero => cases h
  | succ fuel ih =>
    unfold wait at h
    split at h
    · cases h
    · dsimp only at h
      split at h
      · cases h
      · cases h
      · split at h
        · cases h
          rfl
        · split at h
          · cases h
          · exact ih h

/-- Every run reports the log once. -/
def ReportsOnce (client : Client) (line : Nat → Text) (visible : Nat → Nat) (tracker : LogTracker S P)
    (upid : Text) (timeoutSecs : Nat) (start : S) : Prop :=
  ∀ fuel events result, waitTaskTracking client tracker upid timeoutSecs fuel start = some (events, result) →
    ReportedOnce line visible events result

/-- Where no call fails, the deadline is never over and the status says from some call on that the task
has ended, it is followed to its end. -/
def Ends (client : Client) (tracker : LogTracker S P) (upid : Text) (timeoutSecs : Nat) (start : S) : Prop :=
  (upidFields upid).isSome → (∀ call, ∃ status, client.status call = .ok status) →
    (∀ call start e, client.log call start logPage ≠ .error e) →
    (∀ call, client.late call = false) → (∃ stop, ∀ call status, stop ≤ call →
      client.status call = .ok status → Stopped status) →
    ∃ fuel events r, waitTaskTracking client tracker upid timeoutSecs fuel start = some (events, .ok r)

/-- **Every line is reported once**: a run that ends with the task reports exactly the log, in order and
before the end, one that fails a first part of it; and where no call fails, a task that ends in time is
followed to its end. -/
theorem log_reported_once {client : Client} {line : Nat → Text} {visible : Nat → Nat}
    (hgrow : Growing client line visible) (tracker : LogTracker S P) (upid : Text)
    (timeoutSecs : Nat) (start : S) :
    ReportsOnce client line visible tracker upid timeoutSecs start ∧
      Ends client tracker upid timeoutSecs start := by
  unfold ReportsOnce Ends waitTaskTracking
  constructor
  · intro fuel events result h
    split at h
    · cases h
      exact ⟨fun e _ => ⟨fun _ _ => List.not_mem_nil, 0, 0, Nat.zero_le _, rfl⟩, nofun⟩
    · rename_i fields hfields
      obtain ⟨⟨s', outcome⟩, hwait, heq⟩ := Option.map_eq_some_iff.mp h
      cases heq
      have hwaited := wait_waited hgrow tracker upid timeoutSecs (Nat.zero_le _) hwait
      constructor
      · rintro e rfl
        obtain ⟨⟨-, -, more, hmore, hbetween, hlines⟩, call, hcall⟩ := hwaited.error e rfl
        dsimp only at hmore hlines ⊢
        refine ⟨fun upid' status hmem => ?_, s'.seen, call, hcall, ?_⟩
        · rw [hmore] at hmem
          rcases List.mem_cons.mp hmem with heq | hin
          · cases heq
          · rcases hbetween _ hin with ⟨_, heq⟩ | ⟨_, _, heq⟩ <;> cases heq
        · rw [hmore, ← hlines]
          rfl
      · rintro r rfl
        obtain ⟨before, ⟨-, -, more, hmore, hbetween, hlines⟩, rfl, call, hcall⟩ := hwaited.ok r rfl
        dsimp only at hmore hlines ⊢
        refine ⟨started upid fields, more, ?_, hbetween, ⟨_, _, _, _, rfl⟩, call, fun later hlater => ?_⟩
        · rw [wait_upid hwait, Following.event, hmore]
          rfl
        · rw [hcall later hlater, Following.event, hmore, ← hlines]
          simp [reported, started]
  · intro hupid hstatus hlog hlate hstop
    obtain ⟨fields, hfields⟩ := Option.isSome_iff_exists.mp hupid
    obtain ⟨stop, hstop⟩ := hstop
    obtain ⟨status, hcall⟩ := hstatus stop
    have hcomplete := hgrow.complete stop status hcall (hstop stop status (le_refl _) hcall)
    have hbound : ∀ call, visible call ≤ visible stop := by
      intro call
      rcases Nat.le_total call stop with hle | hle
      · exact hgrow.grows hle
      · exact (hcomplete call hle).le
    have hends : ∀ call, ∃ status, client.status call = .ok status ∧ (stop ≤ call → Stopped status) := by
      intro call
      obtain ⟨status, hcall⟩ := hstatus call
      exact ⟨status, hcall, fun hle => hstop call status hle hcall⟩
    rw [hfields]
    dsimp only
    obtain ⟨s', r, hwait⟩ := wait_ends hgrow tracker upid timeoutSecs hbound hends hlog hlate
      (s := ⟨0, 0, start, [started upid fields]⟩)
      (Nat.zero_le _) (Nat.lt_succ_self (visible stop + (stop - 0) + 1))
    exact ⟨_, s'.events, r, by rw [hwait]; rfl⟩

/-! ## A log of two pages that grows -/

def numbered (n : Nat) : Text := 'l' :: Text.ofNat n

/-- More than a page at first, and more lines when the task has ended. -/
def grown (call : Nat) : Nat := if call = 0 then 0 else if call < 3 then 520 else 600

def growing : Client where
  status call :=
    if call < 3 then .ok (.obj [("status", .str "running")])
    else .ok (.obj [("exitstatus", .str "OK"), ("status", .str "stopped")])
  log call start _ := .ok (.arr (page numbered (grown call) start))
  late _ := false

theorem growing_grows : Growing growing numbered grown where
  grows := by
    intro a b hab
    unfold grown
    split_ifs <;> omega
  first := by decide
  log _ _ := .inl rfl
  complete := by
    intro call status hstatus hstopped later hlater
    by_cases hcall : call < 3
    · simp only [growing, if_pos hcall] at hstatus
      obtain rfl := Except.ok.inj hstatus
      unfold Stopped at hstopped
      exact absurd hstopped (by decide)
    · unfold grown
      split_ifs <;> omega

def silent : LogTracker Unit Unit := ⟨fun _ _ => ((), none)⟩

def sampleUpid : Text := "UPID:pve1:1:2:3:qmstart:101:root@pam:"

/-- The first 500 lines, the rest of them, and the lines that came later. -/
def grownEvents : List (JobEvent Unit) :=
  [.taskStarted "pve1" sampleUpid "qmstart" (some 101), .taskLog sampleUpid (lines numbered 0 500),
    .taskLog sampleUpid (lines numbered 500 520), .taskLog sampleUpid (lines numbered 520 600),
      .taskFinished sampleUpid "OK"]

theorem growing_run : waitTaskTracking growing silent sampleUpid 60 9 () =
    some (grownEvents, .ok ⟨sampleUpid, "OK"⟩) := by
  have hfields : upidFields sampleUpid = some (sampleUpid.splitOn ':') := by decide +kernel
  have hstarted : (started sampleUpid (sampleUpid.splitOn ':') : JobEvent Unit) = .taskStarted
      "pve1" sampleUpid "qmstart" (some 101) :=
    rfl
  have hfirst : numbered 0 ≠ "no content" := by decide
  have hreport (s : Following Unit Unit) (new : List Text) (seen : Nat) :
      s.report silent sampleUpid new seen = ⟨s.calls, seen, (), s.events ++ [.taskLog sampleUpid new]⟩ := rfl
  -- the status says running, the first page is full, and the second ends the log for now
  have hpages : pages growing silent sampleUpid 8 ⟨1, 0, (),
      [.taskStarted "pve1" sampleUpid "qmstart" (some 101)]⟩ =
      some (⟨3, 520, (), grownEvents.take 3⟩, .ok ()) := by
    rw [pages_page 520 hfirst rfl (by decide), hreport]
    dsimp only
    rw [if_pos (by decide), pages_page 520 hfirst rfl (by decide), hreport]
    exact if_neg (by decide)
  have hmore : pages growing silent sampleUpid 7 ⟨4, 520, (), grownEvents.take 3⟩ =
      some (⟨5, 600, (), grownEvents.take 4⟩, .ok ()) := by
    rw [pages_page 600 hfirst rfl (by decide), hreport]
    exact if_neg (by decide)
  have hrunning : growing.status 0 = .ok (.obj [("status", .str "running")]) := rfl
  have hstopped : growing.status 3 = .ok (.obj [("exitstatus", .str "OK"), ("status", .str "stopped")]) := rfl
  have hfollows : wait growing silent sampleUpid 60 9 ⟨0, 0, (),
      [.taskStarted "pve1" sampleUpid "qmstart" (some 101)]⟩ =
      wait growing silent sampleUpid 60 8 ⟨3, 520, (), grownEvents.take 3⟩ :=
    @wait_running _ _ growing silent sampleUpid 60 8 ⟨0, 0, (), _⟩ _ _ hrunning hpages
      (by unfold Stopped; decide) rfl
  have hends := @wait_stopped _ _ growing silent sampleUpid 60 7 ⟨3, 520, (),
    grownEvents.take 3⟩ _ _ hstopped hmore
    (by unfold Stopped; decide)
  unfold waitTaskTracking
  rw [hfields]
  dsimp only
  rw [hstarted, hfollows, hends]
  rfl

theorem growing_reported : ReportedOnce numbered grown grownEvents (.ok ⟨sampleUpid, "OK"⟩) ∧
    Ends growing silent sampleUpid 60 () := by
  obtain ⟨honce, hends⟩ := log_reported_once growing_grows silent sampleUpid 60 ()
  exact ⟨honce 9 _ _ growing_run, hends⟩

end HomeStack.TaskLogs
