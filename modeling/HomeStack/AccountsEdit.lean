import HomeStack.AccountsSafety

/-! An edit of a profile that is answered: what it has asked, and when its answer tells what became of
the profile. -/

namespace HomeStack.Accounts

open Prog (Event Exec wp wp_bind wp_mono anything)
open Prog.Pool (own own_cons mem_own)

abbrev History := List (Event Ask Ask.Answer)

/-- Nothing was written and no operation begun. -/
def Quiet (h : History) : Prop :=
  ∀ e ∈ h, e.q.starting = false ∧ (e.q.writing = true → ∃ p snapshot edit f,
    e = ⟨.save p snapshot edit, .error f⟩)

/-- A record of the profile was read and saved, and nothing else was. -/
structure Saves (id : Text) (p : Profile) (h : History) : Prop where
  read : ∃ r, ⟨.profile id, .ok r⟩ ∈ h ∧ p.id = r.id
  saved : ⟨.save p none true, .ok ()⟩ ∈ h
  only : ∀ e ∈ h, e.q.starting = false ∧ (e.q.writing = true → e = ⟨.save p none true, .ok ()⟩)

/-- An edit that is answered: refused before it saved, saved as disabled, or saved and followed by `begin`. -/
def Answered (id : Text) (enabled : Bool) (result : Result) (h : History) : Prop :=
  (∃ f, result = .error f) ∧ Quiet h ∨
  (enabled = false ∧ result = .ok () ∧ ∀ e ∈ h, e.q.starting = false) ∨
  enabled = true ∧ ∃ p r rest, h = ⟨.begin p .probe, r⟩ :: rest ∧ Saves id p rest ∧ result = r.map fun _ => ()

section Histories

variable {α β : Type} {h : History} {q : Ask}

theorem tells_ask {k : q.Answer → Run α} {post : α → History → Prop}
    (hk : ∀ r, wp anything (fun _ _ => True) (k r) (⟨q, r⟩ :: h) post) :
    wp anything (fun _ _ => True) (ask q >>= k) h post :=
  ⟨trivial, fun r _ hr => hr ▸ hk r⟩

theorem tells_pure {a : α} {post : α → History → Prop} (hp : post a h) :
    wp anything (fun _ _ => True) (pure a : Run α) h post := hp

theorem tells_bind {x : Run α} {f : α → Run β} {pre : α → History → Prop} {post : β → History → Prop}
    (hx : wp anything (fun _ _ => True) x h pre)
    (hf : ∀ a h', pre a h' → wp anything (fun _ _ => True) (f a) h' post) :
    wp anything (fun _ _ => True) (x >>= f) h post :=
  wp_bind.mpr (wp_mono hx hf)

theorem Quiet.cons {e : Event Ask Ask.Answer} (hh : Quiet h) (hs : e.q.starting = false)
    (hw : e.q.writing = false) : Quiet (e :: h) := by
  intro d hd
  rcases List.mem_cons.mp hd with rfl | hd
  · refine ⟨hs, fun hw' => ?_⟩
    rw [hw] at hw'
    cases hw'
  · exact hh d hd

theorem Quiet.nil : Quiet [] := fun _ hd => absurd hd List.not_mem_nil

theorem Saves.cons {id : Text} {p : Profile} {e : Event Ask Ask.Answer} (hh : Saves id p h)
    (hs : e.q.starting = false) (hw : e.q.writing = false) : Saves id p (e :: h) := by
  obtain ⟨r, hr, hid⟩ := hh.read
  refine ⟨⟨r, List.mem_cons_of_mem _ hr, hid⟩, List.mem_cons_of_mem _ hh.saved, fun d hd => ?_⟩
  rcases List.mem_cons.mp hd with rfl | hd
  · refine ⟨hs, fun hw' => ?_⟩
    rw [hw] at hw'
    cases hw'
  · exact hh.only d hd

/-- With the lock: refused with nothing written, or saved. -/
theorem tells_editLocked {id : Text} {enabled : Bool} (hh : Quiet h) (hno : ∀ e ∈ h, e.q.writing = false) :
    wp anything (fun _ _ => True) (editLocked id enabled) h fun r h' =>
      (∃ f, r = .error f) ∧ Quiet h' ∨ ∃ p, r = .ok p ∧ p.enabled = enabled ∧ Saves id p h' := by
  unfold editLocked
  refine tells_ask ?_
  rintro (f | p)
  · exact tells_pure (Or.inl ⟨⟨f, rfl⟩, hh.cons rfl rfl⟩)
  dsimp only
  split
  · exact tells_pure (Or.inl ⟨⟨_, rfl⟩, hh.cons rfl rfl⟩)
  refine tells_ask fun now => ?_
  have hquiet : Quiet (⟨.now, now⟩ :: ⟨.profile id, .ok p⟩ :: h) := (hh.cons rfl rfl).cons rfl rfl
  refine tells_ask ?_
  rintro (f | ⟨⟨⟩⟩)
  · refine tells_pure (Or.inl ⟨⟨f, rfl⟩, fun e he => ?_⟩)
    rcases List.mem_cons.mp he with rfl | he
    · exact ⟨rfl, fun _ => ⟨_, _, _, _, rfl⟩⟩
    · exact hquiet e he
  · refine tells_pure (Or.inr ⟨_, rfl, rfl, ⟨p, by simp, rfl⟩, by simp, fun e he => ?_⟩)
    simp only [List.mem_cons] at he
    rcases he with rfl | rfl | rfl | he
    · exact ⟨rfl, fun _ => rfl⟩
    · exact ⟨rfl, fun hw => by cases hw⟩
    · exact ⟨rfl, fun hw => by cases hw⟩
    · refine ⟨(hh e he).1, fun hw => ?_⟩
      rw [hno e he] at hw
      cases hw

theorem tells_edit (id : Text) (enabled : Bool) :
    wp anything (fun _ _ => True) (edit id enabled) [] (Answered id enabled) := by
  unfold edit
  refine tells_ask ?_
  rintro (f | p)
  · exact tells_pure (Or.inl ⟨⟨f, rfl⟩, Quiet.nil.cons rfl rfl⟩)
  refine tells_ask fun _ => ?_
  refine tells_ask fun lock => ?_
  have hquiet : Quiet [⟨.lock id, lock⟩, ⟨.cancelProfile id, ()⟩, ⟨.profile id, .ok p⟩] :=
    ((Quiet.nil.cons rfl rfl).cons rfl rfl).cons rfl rfl
  refine tells_ask ?_
  rintro (⟨⟨⟩⟩ | f)
  · refine tells_bind (tells_editLocked (hquiet.cons rfl rfl) ?_) fun saved h' hsaved => ?_
    · simp [Ask.writing]
    refine tells_ask fun _ => ?_
    rcases hsaved with ⟨⟨f, rfl⟩, hq⟩ | ⟨p', rfl, henabled, hsaves⟩
    · exact tells_pure (Or.inl ⟨⟨f, rfl⟩, hq.cons rfl rfl⟩)
    · have hsaves' := hsaves.cons (e := ⟨.release id lock, ()⟩) rfl rfl
      simp only [editBegin]
      split
      next hp =>
        refine tells_ask fun r => ?_
        cases r with
        | error f => exact tells_pure (Or.inr (Or.inr ⟨henabled ▸ hp, p', .error f, _, rfl, hsaves', rfl⟩))
        | ok op => exact tells_pure (Or.inr (Or.inr ⟨henabled ▸ hp, p', .ok op, _, rfl, hsaves', rfl⟩))
      next hp =>
        have hedit := by simpa [henabled] using hp
        exact tells_pure (Or.inr (Or.inl ⟨hedit, rfl, fun e he => (hsaves'.only e he).1⟩))
  · exact tells_pure (Or.inl ⟨⟨f, rfl⟩, hquiet.cons rfl rfl⟩)

end Histories

/-! ## When an edit is fair -/

def Room (s : Shared) : Prop := s.running.length < 32 ∧ (s.kept 128).length < 256

/-- A probe that was not cancelled by the request can be begun, or is there. -/
def Free (i : Proc) (s : Shared) (id : Text) : Prop :=
  (∀ j ∈ s.running, ¬ j.of id) ∧ Room s ∨ ∃ j ∈ s.running, j.of id ∧ j.value.kind = .probe ∧ i ∉ j.cancelledBy

/-- None can be begun. -/
def Refuses (s : Shared) (id : Text) : Prop :=
  (∀ j ∈ s.running, ¬ j.of id) ∧ ¬ Room s ∨ ∃ j ∈ s.running, j.of id ∧ j.value.kind ≠ .probe

abbrev Log := List (Prog.Pool.Entry Proc Ask Ask.Answer Shared)

/-- A refused edit has changed nothing, and one that enables has a probe of its own. -/
structure Fair (i : Proc) (id : Text) (enabled : Bool) (result : Result) (log : Log) : Prop where
  error : (∃ f, result = .error f) → ∀ e ∈ log, e.proc = i → e.after.rows id = e.before.rows id
  ok : result = .ok () → enabled = true → ∃ e ∈ log, e.proc = i ∧ e.event.q.starting = true ∧
    ∃ j ∈ e.after.running, j.of id ∧ j.value.kind = .probe ∧ i ∉ j.cancelledBy

/-- When the request comes to its `begin`, a probe can be begun, or none can and the record was saved as
it was. -/
def Timely (i : Proc) (log : Log) : Prop :=
  ∀ e ∈ log, e.proc = i → ∀ p kind, e.event.q = .begin p kind →
    Free i e.before p.id ∨ Refuses e.before p.id ∧
      ∀ d ∈ log, d.proc = i → ∀ snapshot edit, d.event.q = .save p snapshot edit → d.before.rows p.id = some p

theorem one_of_countP {α : Type} {p : α → Bool} {l : List α} (h : l.countP p ≤ 1) {a b : α} (ha : a ∈ l)
    (hb : b ∈ l) (hpa : p a = true) (hpb : p b = true) : a = b := by
  rw [List.countP_eq_length_filter] at h
  have ha' := List.mem_filter.mpr ⟨ha, hpa⟩
  have hb' := List.mem_filter.mpr ⟨hb, hpb⟩
  match hl : l.filter p with
  | [] => simp [hl] at ha'
  | [x] =>
    rw [hl, List.mem_singleton] at ha' hb'
    rw [ha', hb']
  | x :: y :: _ => simp [hl] at h

theorem Single.one {s : Shared} (h : Single s) {id : Text} {j k : Job} (hj : j ∈ s.running)
    (hk : k ∈ s.running) (hjid : j.of id) (hkid : k.of id) : j = k := by
  obtain ⟨hj, hjrun⟩ := List.mem_filter.mp hj
  obtain ⟨hk, hkrun⟩ := List.mem_filter.mp hk
  exact one_of_countP (h id) hj hk (by simp [hjid, hjrun]) (by simp [hkid, hkrun])

/-- Each row is under its own id. -/
def Keyed (s : Shared) : Prop := ∀ id p, s.rows id = some p → p.id = id

theorem Keyed.step {i : Proc} {s t : Shared} {q : Ask} {r : q.Answer} (h : Keyed s) (hn : next i s q r t) :
    Keyed t := by
  have hsaved : ∀ {p : Profile} {id : Text} {p' : Profile},
      Function.update s.rows p.id (some p) id = some p' → p'.id = id := by
    intro p id p' hrow
    rcases update_some hrow with ⟨rfl, rfl⟩ | hrow
    · rfl
    · exact h id p' hrow
  intro id p hp
  cases hq : q.writing with
  | false => exact h id p (((next_frame hn).rows hq).1 ▸ hp)
  | true =>
    cases q with
    | insert p' =>
      rcases hn with ⟨-, rfl⟩ | ⟨-, rfl⟩
      · exact hsaved hp
      · exact h id p hp
    | save p' snapshot edit =>
      rcases hn with ⟨-, rfl⟩ | ⟨-, rfl⟩
      · exact hsaved hp
      · exact h id p hp
    | activate p' snapshot =>
      rcases hn with ⟨-, -, rfl⟩ | ⟨-, rfl⟩
      · exact hsaved hp
      · exact h id p hp
    | delete id' =>
      rcases hn with ⟨-, rfl⟩ | ⟨-, rfl⟩
      · by_cases hid : id = id'
        · simp [hid] at hp
        · exact h id p (by simpa [Function.update_of_ne hid] using hp)
      · exact h id p hp
    | _ => cases hq

/-- What `begin` makes of the operations: a probe that the request has not cancelled, or not. -/
theorem begun_iff {i : Proc} {s t : Shared} {p : Profile} {r : Except Failure Nat} (hsingle : Single s)
    (hb : Begun s p .probe r t) :
    (∃ op, r = .ok op) ∧ ¬ Refuses s p.id ∧
        (Free i s p.id ↔ ∃ j ∈ t.running, j.of p.id ∧ j.value.kind = .probe ∧ i ∉ j.cancelledBy) ∨
      (∃ f, r = .error f) ∧ Refuses s p.id ∧ ¬ Free i s p.id := by
  cases hb with
  | @same j hj hid hkind =>
    refine Or.inl ⟨⟨_, rfl⟩, ?_, ?_⟩
    · rintro (⟨hnone, -⟩ | ⟨k, hk, hkid, hne⟩)
      · exact hnone j hj hid
      · exact hne (hsingle.one hk hj hkid hid ▸ hkind)
    · constructor
      · rintro (⟨hnone, -⟩ | hk)
        · exact absurd hid (hnone j hj)
        · exact hk
      · exact Or.inr
  | @other j hj hid hkind =>
    refine Or.inr ⟨⟨_, rfl⟩, Or.inr ⟨j, hj, hid, hkind⟩, ?_⟩
    rintro (⟨hnone, -⟩ | ⟨k, hk, hkid, hprobe, -⟩)
    · exact hnone j hj hid
    · exact hkind (hsingle.one hj hk hid hkid ▸ hprobe)
  | full hnone hfull =>
    refine Or.inr ⟨⟨_, rfl⟩, Or.inl ⟨hnone, fun hroom => absurd hroom.1 (by omega)⟩, ?_⟩
    rintro (⟨-, hroom⟩ | ⟨k, hk, hkid, -⟩)
    · exact absurd hroom.1 (by omega)
    · exact hnone k hk hkid
  | crowded hnone _ hfull =>
    refine Or.inr ⟨⟨_, rfl⟩, Or.inl ⟨hnone, fun hroom => absurd hroom.2 (by omega)⟩, ?_⟩
    rintro (⟨-, hroom⟩ | ⟨k, hk, hkid, -⟩)
    · exact absurd hroom.2 (by omega)
    · exact hnone k hk hkid
  | fresh op hnone hrun hroom =>
    refine Or.inl ⟨⟨_, rfl⟩, ?_, fun _ => ?_, fun _ => Or.inl ⟨hnone, hrun, hroom⟩⟩
    · rintro (⟨-, hno⟩ | ⟨k, hk, hkid, -⟩)
      · exact hno ⟨hrun, hroom⟩
      · exact hnone k hk hkid
    · refine ⟨⟨⟨op, some p.id, p.provider, .probe, false⟩, []⟩, ?_, rfl, rfl, List.not_mem_nil⟩
      simp [Shared.running, Shared.start]

theorem wp_any {α : Type} (x : Run α) (h : History) : wp anything (fun _ _ => True) x h fun _ _ => True := by
  induction x generalizing h with
  | pure a => trivial
  | ask q k ih => exact ⟨trivial, fun r h' _ => ih r h'⟩

section Runs

variable {requests : Nat → Request} {n : Nat} {id : Text} {enabled : Bool} {s₀ : Shared}
  {st : Service} {result : Result}

theorem run_answered (hreq : requests n = .edit id enabled)
    (hr : Prog.Pool.Run (world fun _ _ => True) (Prog.Pool.start (program requests) s₀) st)
    (hdone : st.left (.request n) = .pure result) : Answered id enabled result (own (.request n) st.log) := by
  have hp : ∀ i, wp anything (fun _ _ => True) (program requests i) [] fun a h => i = .request n →
      Answered id enabled a h := by
    intro i
    by_cases hi : i = .request n
    · subst hi
      simp only [program, hreq]
      exact wp_mono (tells_edit id enabled) fun _ _ ha _ => ha
    · exact wp_mono (wp_any _ _) fun _ _ _ hi' => absurd hi' hi
  have hw := Prog.Pool.Run.wp hp hr (.request n)
  rw [hdone] at hw
  exact hw rfl

/-- The rows stay as they are where nothing is written. -/
theorem rows_same {i : Proc} {e : Prog.Pool.Entry Proc Ask Ask.Answer Shared}
    (hn : next i e.before e.event.q e.event.r e.after)
    (hq : e.event.q.writing = true → ∃ p snapshot edit f, e.event = ⟨.save p snapshot edit, .error f⟩) :
    e.after.rows = e.before.rows := by
  cases hw : e.event.q.writing with
  | false => exact ((next_frame hn).rows hw).1
  | true =>
    obtain ⟨p, snapshot, edit, f, heq⟩ := hq hw
    rw [heq] at hn
    rcases hn with ⟨hok, -⟩ | ⟨-, ht⟩
    · cases hok
    · rw [ht]

theorem fair_of_quiet {i : Proc} {log : Log}
    (hn : ∀ e ∈ log, next e.proc e.before e.event.q e.event.r e.after) (hq : Quiet (own i log))
    (hresult : ∃ f, result = .error f) : Fair i id enabled result log ↔ Timely i log := by
  have hquiet : ∀ e ∈ log, e.proc = i → _ := fun e he hi => hq e.event (mem_own.mpr ⟨e, he, hi, rfl⟩)
  constructor
  · intro _ e he hi p kind hbegin
    have hs := (hquiet e he hi).1
    rw [hbegin] at hs
    cases hs
  · intro _
    constructor
    · intro _ e he hi
      rw [rows_same (hn e he) (hquiet e he hi).2]
    · intro hok
      obtain ⟨f, hf⟩ := hresult
      rw [hf] at hok
      cases hok

/-- An edit that began: all hangs on what `begin` found. -/
theorem fair_of_begun {i : Proc} {log : Log} {p : Profile} {r : Except Failure Nat} {rest : History}
    (hn : ∀ e ∈ log, next e.proc e.before e.event.q e.event.r e.after) (hsingle : ∀ e ∈ log, Single e.before)
    (hown : own i log = ⟨.begin p .probe, r⟩ :: rest) (hsaves : Saves id p rest) (hid : p.id = id)
    (henabled : enabled = true)
    (hresult : result = r.map fun _ => ()) : Fair i id enabled result log ↔ Timely i log := by
  obtain ⟨newer, e₀, older, rfl, hnewer, hevent, holder⟩ := List.filterMap_eq_cons_iff.mp hown
  obtain ⟨hi₀, hevent⟩ : e₀.proc = i ∧ e₀.event = ⟨.begin p .probe, r⟩ := by simpa using hevent
  have he₀ : e₀ ∈ newer ++ e₀ :: older := by simp
  have hrest : ∀ e ∈ newer ++ e₀ :: older, e.proc = i → e = e₀ ∨ e.event ∈ rest := by
    intro e he hi
    rcases List.mem_append.mp he with he | he
    · have hnone := hnewer e he
      simp [hi] at hnone
    · rcases List.mem_cons.mp he with rfl | he
      · exact Or.inl rfl
      · refine Or.inr ?_
        rw [← holder]
        exact mem_own.mpr ⟨e, he, hi, rfl⟩
  have hstarts : ∀ e ∈ newer ++ e₀ :: older, e.proc = i → e.event.q.starting = true → e = e₀ := by
    intro e he hi hs
    rcases hrest e he hi with rfl | hmem
    · rfl
    · rw [(hsaves.only _ hmem).1] at hs
      cases hs
  have hbegun : Begun e₀.before p .probe r e₀.after := by
    have hnext := hn e₀ he₀
    rw [hevent] at hnext
    exact hnext
  have hsaved : ∀ d ∈ newer ++ e₀ :: older, d.event = ⟨.save p none true, .ok ()⟩ →
      d.after.rows id = some p := by
    intro d hd heq
    have hnext := hn d hd
    rw [heq] at hnext
    rcases hnext with ⟨-, ht⟩ | ⟨⟨f, hf⟩, -⟩
    · rw [ht, ← hid]
      exact Function.update_self ..
    · cases hf
  have hwrites : ∀ e ∈ newer ++ e₀ :: older, e.proc = i → e.event.q.writing = true →
      e.event = ⟨.save p none true, .ok ()⟩ := by
    intro e he hi hw
    rcases hrest e he hi with rfl | hmem
    · rw [hevent] at hw
      cases hw
    · exact (hsaves.only _ hmem).2 hw
  rcases begun_iff (i := i) (hsingle e₀ he₀) hbegun with ⟨⟨op, rfl⟩, hno, hfree⟩ | ⟨⟨f, rfl⟩, hrefuses, hno⟩
  · constructor
    · intro hfair e he hi p' kind hq
      obtain rfl := hstarts e he hi (by rw [hq]; rfl)
      obtain ⟨rfl, rfl⟩ : p = p' ∧ _ := by simpa [hevent] using hq
      obtain ⟨d, hd, hdi, hs, hprobe⟩ := hfair.ok hresult henabled
      obtain rfl := hstarts d hd hdi hs
      exact Or.inl (hfree.mpr (hid ▸ hprobe))
    · intro htimely
      constructor
      · rintro ⟨f, hf⟩
        rw [hresult] at hf
        cases hf
      · intro _ _
        have hq : e₀.event.q = .begin p .probe := by rw [hevent]
        rcases htimely e₀ he₀ hi₀ p .probe hq with hf | ⟨hr, -⟩
        · exact ⟨e₀, he₀, hi₀, by rw [hevent]; rfl, hid ▸ hfree.mp hf⟩
        · exact absurd hr hno
  · constructor
    · intro hfair e he hi p' kind hq
      obtain rfl := hstarts e he hi (by rw [hq]; rfl)
      obtain ⟨rfl, rfl⟩ : p = p' ∧ _ := by simpa [hevent] using hq
      refine Or.inr ⟨hrefuses, fun d hd hdi snapshot edit hsave => ?_⟩
      rw [hid, ← hfair.error ⟨f, hresult⟩ d hd hdi]
      exact hsaved d hd (hwrites d hd hdi (by rw [hsave]; rfl))
    · intro htimely
      constructor
      · intro _ e he hi
        cases hw : e.event.q.writing with
        | false => rw [((next_frame (hn e he)).rows hw).1]
        | true =>
          have heq := hwrites e he hi hw
          have hq : e₀.event.q = .begin p .probe := by rw [hevent]
          rcases htimely e₀ he₀ hi₀ p .probe hq with hf | ⟨-, hsame⟩
          · exact absurd hf hno
          · have hrow := hsame e he hi none true (by rw [heq])
            rw [hid] at hrow
            rw [hrow, hsaved e he heq]
      · intro hok
        rw [hresult] at hok
        cases hok

/-- In every run, an edit that is answered has changed nothing if it was refused, and has a probe that
it did not cancel if it enabled the profile, exactly if its `begin` came when a probe could be begun, or
none could and it had saved the record as it was. -/
theorem edit_fair_iff (h₀ : Started s₀) (hreq : requests n = .edit id enabled)
    (hr : Prog.Pool.Run (world fun _ _ => True) (Prog.Pool.start (program requests) s₀) st)
    (hdone : st.left (.request n) = .pure result) :
    Fair (.request n) id enabled result st.log ↔ Timely (.request n) st.log := by
  have hnext : ∀ e ∈ st.log, next e.proc e.before e.event.q e.event.r e.after := fun e he => (hr.next e he).2
  have hstep : ∀ {i : Proc} {x : Shared} {q : Ask} {r : q.Answer} {y : Shared}, Keyed x ∧ Single x →
      ((world fun _ _ => True).env i).next x q r y → Keyed y ∧ Single y :=
    fun hJ hn => ⟨hJ.1.step hn.2, hJ.2.step hn.2⟩
  have hidle : ∀ {x y : Shared}, Keyed x ∧ Single x → (world fun _ _ => True).idle x y →
      Keyed y ∧ Single y := by
    rintro x y hJ ⟨young, rfl⟩
    exact hJ
  have halways := hr.always hstep hidle ⟨fun _ _ hp => (h₀.row hp).1, h₀.sound.single⟩
  rcases run_answered hreq hr hdone with ⟨hresult, hq⟩ | ⟨rfl, rfl, hstarting⟩ | ⟨henabled, p, r,
    rest, hown, hsaves, hresult⟩
  · exact fair_of_quiet hnext hq hresult
  · constructor
    · intro _ e he hi p kind hbegin
      have hs := hstarting e.event (mem_own.mpr ⟨e, he, hi, rfl⟩)
      rw [hbegin] at hs
      cases hs
    · exact fun _ => ⟨nofun, nofun⟩
  · refine fair_of_begun hnext (fun e he => (halways.2 e he).2) hown hsaves ?_ henabled hresult
    obtain ⟨r₀, hread, hpid⟩ := hsaves.read
    obtain ⟨e, he, -, hevent⟩ := mem_own.mp (hown ▸ List.mem_cons_of_mem _ hread)
    have hn := hnext e he
    rw [hevent] at hn
    rw [hpid]
    exact (halways.2 e he).1 id r₀ (hn.2 r₀ rfl)

end Runs

/-! ## An edit while an authentication ends -/

/-- An authentication was begun. -/
def queued : Shared := single.start (single.kept 128) ⟨0, some "p", "codex", .authentication, false⟩ true

def cancelled : Shared :=
  queued.cancel (.request 1) fun j => j.value.profileId = some "p" && !j.value.finished

def named : Shared :=
  { cancelled with
    locks := Function.update cancelled.locks "p" (some 0)
    owner := Function.update cancelled.owner 0 (some "p") }

def owned : Shared := { named with holder := Function.update named.holder 0 (some (.request 1)) }

def renewed : Profile := edited work true 5

def written : Shared := { owned.saved renewed none with
  edited := Function.update owned.edited "p" (some true) }

def freed : Shared := { written with holder := Function.update written.holder 0 none }

def editing : Nat → Request
  | 0 => .authenticate "p"
  | _ => .edit "p" true

/-- Both requests run one after the other; the authentication that the edit cancelled is not finished yet. -/
theorem run_refused : ∃ st : Service, Prog.Pool.Run (world fun _ _ => True)
    (Prog.Pool.start (program editing) single) st ∧ (∃ f, st.left (.request 1) = .pure (.error f)) ∧
    ∃ e ∈ st.log, e.proc = .request 1 ∧ e.before.rows "p" = some work ∧ e.after.rows "p" = some renewed := by
  have hwork : ∀ p, Except.ok work = (.ok p : Except Failure Profile) → some work = some p := by
    rintro _ ⟨⟩
    rfl
  have h₁ : ((world fun _ _ => True).env (.request 0)).next single (.profile "p") (.ok work) single :=
    ⟨trivial, rfl, hwork⟩
  have hbegun : Begun single work .authentication (.ok 0) queued := .fresh 0 nofun (by decide) (by decide) rfl
  have h₂ : ((world fun _ _ => True).env (.request 0)).next single (.begin work .authentication)
      (.ok 0) queued := ⟨trivial, hbegun⟩
  have h₃ : ((world fun _ _ => True).env (.request 1)).next queued (.profile "p") (.ok work) queued :=
    ⟨trivial, rfl, hwork⟩
  have h₄ : ((world fun _ _ => True).env (.request 1)).next queued (.cancelProfile "p") () cancelled :=
    ⟨trivial, rfl⟩
  have h₅ : ((world fun _ _ => True).env (.request 1)).next cancelled (.lock "p") (0 : Nat) named :=
    ⟨trivial, Or.inr ⟨rfl, rfl, rfl⟩⟩
  have h₆ : ((world fun _ _ => True).env (.request 1)).next named (.acquire "p" 0) (.done ()) owned :=
    ⟨trivial, Or.inl ⟨rfl, rfl, rfl⟩⟩
  have h₇ : ((world fun _ _ => True).env (.request 1)).next owned (.profile "p") (.ok work) owned :=
    ⟨trivial, rfl, hwork⟩
  have h₈ : ((world fun _ _ => True).env (.request 1)).next owned .now (5 : Int) owned := ⟨trivial, rfl⟩
  have h₉ : ((world fun _ _ => True).env (.request 1)).next owned (.save renewed none true)
      (.ok ()) written := ⟨trivial, Or.inl ⟨rfl, rfl⟩⟩
  have h₁₀ : ((world fun _ _ => True).env (.request 1)).next written (.release "p" 0) () freed :=
    ⟨trivial, rfl⟩
  have hrefused : Begun freed renewed .probe
      (.error (busy "This profile already has an operation in progress")) freed :=
    @Begun.other _ _ _ ⟨⟨0, some "p", "codex", .authentication, false⟩, [.request 1]⟩
      (by simp [Shared.running, freed, written, owned, named, cancelled, queued, single, Shared.saved,
        Shared.cancel, Shared.start, Shared.kept])
      rfl (by simp)
  have h₁₁ : ((world fun _ _ => True).env (.request 1)).next freed (.begin renewed .probe)
      (.error (busy "This profile already has an operation in progress")) freed := ⟨trivial, hrefused⟩
  have hauthenticated : ∃ st : Service, Prog.Pool.Run (world fun _ _ => True)
      (Prog.Pool.start (program editing) single) st ∧
      st.shared = queued ∧ st.left (.request 1) = edit "p" true :=
    ⟨_, (Relation.ReflTransGen.single (.ask rfl h₁)).tail (.ask rfl h₂), rfl, rfl⟩
  obtain ⟨st, hrun, hshared, hleft⟩ := hauthenticated
  obtain ⟨shared, left, log⟩ := st
  subst hshared
  refine ⟨_, ((((((((hrun.tail (.ask hleft h₃)).tail (.ask rfl h₄)).tail (.ask rfl h₅)).tail
    (.ask rfl h₆)).tail (.ask rfl h₇)).tail (.ask rfl h₈)).tail
    (.ask rfl h₉)).tail (.ask rfl h₁₀)).tail (.ask rfl h₁₁),
    ⟨_, rfl⟩, ?_⟩
  exact ⟨_, List.mem_cons_of_mem _ (List.mem_cons_of_mem _ List.mem_cons_self), rfl, rfl, rfl⟩

/-- The edit is refused and the profile is changed. -/
theorem edit_refused_changed :
    ¬ ∀ (requests : Nat → Request) (n : Nat) (id : Text) (enabled : Bool) (s₀ : Shared) (st : Service)
    (result : Result), Started s₀ → requests n = .edit id enabled →
    Prog.Pool.Run (world fun _ _ => True) (Prog.Pool.start (program requests) s₀) st →
      st.left (.request n) = .pure result →
    Fair (.request n) id enabled result st.log := by
  intro h
  obtain ⟨st, hrun, ⟨f, hdone⟩, e, he, hi, hbefore, hafter⟩ := run_refused
  have hsame := (h editing 1 "p" true single st _ started_single rfl hrun hdone).error ⟨f, rfl⟩ e he hi
  rw [hbefore, hafter] at hsame
  exact absurd hsame (by decide)

/-- Its `begin` comes before the authentication is finished. -/
theorem edit_fair_iff_refused : ∃ (st : Service) (result : Result),
    Prog.Pool.Run (world fun _ _ => True) (Prog.Pool.start (program editing) single) st ∧
      st.left (.request 1) = .pure result ∧
      ¬ Timely (.request 1) st.log := by
  obtain ⟨st, hrun, ⟨f, hdone⟩, e, he, hi, hbefore, hafter⟩ := run_refused
  refine ⟨st, .error f, hrun, hdone, fun htimely => ?_⟩
  have hsame := ((edit_fair_iff started_single (rfl : editing 1 = .edit "p" true) hrun hdone).mpr
    htimely).error ⟨f, rfl⟩ e he hi
  rw [hbefore, hafter] at hsame
  exact absurd hsame (by decide)

end HomeStack.Accounts
