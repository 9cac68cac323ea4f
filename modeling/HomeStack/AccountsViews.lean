import HomeStack.Accounts

/-! What each program of the agent accounts service does by itself: what it has read and what it holds,
and that it writes only over what it has read under the lock of the profile and works with a provider
only at its gate. -/

namespace HomeStack.Accounts

open Prog (Event Env wp wp_bind wp_mono wp_map anything)

/-- What a process knows and holds, by its own questions. -/
structure View where
  /-- The profiles it has met, with their providers. -/
  seen : List (Text × Text)
  /-- An id it has made and not yet saved. -/
  fresh : Option Text
  task : Option Operation
  got : Option (Text × Nat)
  lock : Option (Text × Nat)
  /-- The record it has read or written under the lock. -/
  record : Option Profile
  filesGone : Bool
  rowGone : Bool
  jobsGone : Bool
  reads : Option Text
  writes : Option Text

namespace View

def empty : View := ⟨[], none, none, none, none, none, false, false, false, none, none⟩

def learns (v : View) (id : Text) (p : Profile) : View :=
  { v with
    seen := (id, p.provider) :: (p.id, p.provider) :: v.seen
    record := if v.lock.any fun l => l.1 = id then some p else v.record }

def locked (v : View) (lock : Option (Text × Nat)) : View :=
  { v with lock := lock, record := none, filesGone := false, rowGone := false, jobsGone := false }

def after (v : View) : Event Ask Ask.Answer → View
  | ⟨.profile id, .ok p⟩ => v.learns id p
  | ⟨.profiles, .ok ps⟩ => { v with seen := ps.map (fun p => (p.id, p.provider)) ++ v.seen }
  | ⟨.newId, id⟩ => { v with fresh := some id }
  | ⟨.insert _, .ok ()⟩ => { v with fresh := none }
  | ⟨.save p _ _, .ok ()⟩ => { v with record := some p }
  | ⟨.activate p _, .ok ()⟩ => { v with record := some p }
  | ⟨.prepare _, _⟩ => { v with filesGone := false }
  | ⟨.deleteFiles _, .ok ()⟩ => { v with filesGone := true }
  | ⟨.delete _, .ok ()⟩ => { v with record := none, rowGone := true }
  | ⟨.removeJobs _, _⟩ => { v with jobsGone := true }
  | ⟨.take _, o⟩ => { v with
      task := some o, seen := (o.profileId.map fun id => (id, o.provider)).toList ++ v.seen }
  | ⟨.lock id, l⟩ => { v with got := some (id, l) }
  | ⟨.acquire id l, .done ()⟩ => v.locked (some (id, l))
  | ⟨.release _ _, _⟩ => v.locked none
  | ⟨.readGate p, .done ()⟩ => { v with reads := some p }
  | ⟨.leaveGate _, _⟩ => { v with reads := none }
  | ⟨.writeGate p, .done ()⟩ => { v with writes := some p }
  | ⟨.leaveExclusive _, _⟩ => { v with writes := none }
  | _ => v

def Met (v : View) (id : Text) : Prop := ∃ provider, (id, provider) ∈ v.seen

def Locked (v : View) (id : Text) : Prop := ∃ l, v.lock = some (id, l)

/-- It has a record that it read under a lock. -/
def Owns (v : View) (r : Profile) : Prop := v.record = some r ∧ v.lock.isSome

/-- A record may be written over the one that was read: of the same profile, and as enabled unless by an
edit. -/
def Rewrites (v : View) (p : Profile) (edit : Bool) : Prop :=
  ∃ r, v.Owns r ∧ p.id = r.id ∧ p.provider = r.provider ∧ (edit = false → p.enabled = r.enabled)

/-- It has the gate of the provider alone, or with others as the task of a profile whose record it has. -/
def AtGate (v : View) (provider : Text) : Prop :=
  v.writes = some provider ∨ ∃ id l r o, v.lock = some (id, l) ∧ v.record = some r ∧
    r.provider = provider ∧ v.task = some o ∧
    o.profileId = some id ∧ v.reads = some o.provider

/-- What a process may ask. -/
def Allows (i : Proc) (v : View) : Ask → Prop
  | .insert p => v.fresh = some p.id ∧ p.enabled = true
  | .save p _ edit => v.Rewrites p edit
  | .activate p _ => v.Rewrites p false
  | .prepare id => v.fresh = some id ∨ ∃ r, v.Owns r ∧ r.id = id
  | .deleteFiles id => v.Locked id ∧ ∃ r, v.Owns r
  | .delete id => v.Locked id ∧ v.filesGone = true ∧ ∃ r, v.Owns r
  | .removeLock id | .removeJobs id => v.Locked id ∧ v.rowGone = true
  | .gone id => v.Locked id ∧ v.filesGone = true ∧ v.rowGone = true ∧ v.jobsGone = true
  | .begin p _ => (p.id, p.provider) ∈ v.seen
  | .take op => i = .task op
  | .lock id => v.Met id
  | .acquire id l => v.got = some (id, l) ∧ v.lock = none
  | .release id l => v.lock = some (id, l)
  | .readGate _ | .writeGate _ => v.reads = none ∧ v.writes = none
  | .leaveGate p => v.reads = some p
  | .leaveExclusive p => v.writes = some p
  | .authenticating p | .counting p | .probing p | .working p => v.AtGate p
  | _ => True

end View

/-- The environment that answers anything and keeps the view. -/
def viewing : Env Ask Ask.Answer View where
  next v q r v' := v' = v.after ⟨q, r⟩

def view (h : List (Event Ask Ask.Answer)) : View := h.foldr (fun e v => v.after e) .empty

/-- The program asks only what its view allows. -/
abbrev Keeps {α : Type} (i : Proc) (x : Run α) (v : View) (post : α → View → Prop) : Prop :=
  wp viewing (View.Allows i) x v post

section Rules

variable {α β : Type} {i : Proc} {v : View} {q : Ask}

theorem keeps_ask {k : q.Answer → Run α} {post : α → View → Prop} (hq : v.Allows i q)
    (hk : ∀ r, Keeps i (k r) (v.after ⟨q, r⟩) post) : Keeps i (ask q >>= k) v post :=
  ⟨hq, fun r _ hv => hv ▸ hk r⟩

theorem keeps_pure {a : α} {post : α → View → Prop} (h : post a v) : Keeps i (pure a) v post := h

theorem keeps_last {post : q.Answer → View → Prop} (hq : v.Allows i q) (h : ∀ r, post r (v.after ⟨q, r⟩)) :
    Keeps i (ask q) v post :=
  ⟨hq, fun r _ hv => hv ▸ h r⟩

theorem keeps_bind {x : Run α} {f : α → Run β} {pre : α → View → Prop} {post : β → View → Prop}
    (hx : Keeps i x v pre) (hf : ∀ a v', pre a v' → Keeps i (f a) v' post) : Keeps i (x >>= f) v post :=
  wp_bind.mpr (wp_mono hx hf)

theorem seen_after (v : View) (e : Event Ask Ask.Answer) : v.seen ⊆ (v.after e).seen := by
  obtain ⟨q, r⟩ := e
  have hid : v.seen ⊆ v.seen := fun _ h => h
  cases q with
  | profile id =>
    cases r with
    | error f => exact hid
    | ok p => exact fun x hx => List.mem_cons_of_mem _ (List.mem_cons_of_mem _ hx)
  | profiles =>
    cases r with
    | error f => exact hid
    | ok ps => exact List.subset_append_right _ _
  | take op => exact List.subset_append_right _ _
  | insert p | save p | activate p | deleteFiles p | delete p => rcases r with f | ⟨⟨⟩⟩ <;> exact hid
  | acquire id l | readGate p | writeGate p => rcases r with ⟨⟨⟩⟩ | f <;> exact hid
  | _ => exact hid

/-- What was met stays so. -/
theorem keeps_seen {x : Run α} {post : α → View → Prop} (h : Keeps i x v post) :
    Keeps i x v fun a v' => post a v' ∧ v.seen ⊆ v'.seen := by
  induction x generalizing v with
  | pure a => exact ⟨h, fun _ hx => hx⟩
  | ask q k ih =>
    refine ⟨h.1, fun r v' hv => ?_⟩
    subst hv
    refine wp_mono (ih r (h.2 r _ rfl)) fun a v' hv => ⟨hv.1, ?_⟩
    exact List.Subset.trans (seen_after v ⟨q, r⟩) hv.2

end Rules

/-! ## Handlers -/

section Handlers

variable {i : Proc} {v : View} {id : Text} {l : Nat}

/-- What a handler ends with says nothing more. -/
abbrev anyway {α : Type} (_ : α) (_ : View) : Prop := True

theorem learns_owns {p : Profile} (h : v.lock = some (id, l)) : (v.learns id p).Owns p := by
  simp [View.learns, View.Owns, h]

theorem learns_met {p : Profile} : (v.learns id p).Met id := ⟨p.provider, by simp [View.learns]⟩

theorem keeps_create (provider name : Text) : Keeps i (create provider name) v anyway := by
  unfold create
  split
  · exact keeps_pure trivial
  split
  · exact keeps_pure trivial
  refine keeps_ask trivial fun id => ?_
  refine keeps_ask trivial fun created => ?_
  refine keeps_ask trivial fun updated => ?_
  refine keeps_ask (Or.inl rfl) ?_
  rintro (f | ⟨⟨⟩⟩)
  · exact keeps_pure trivial
  · exact keeps_last ⟨rfl, rfl⟩ fun _ => trivial

theorem keeps_editLocked {enabled : Bool} (h : v.lock = some (id, l)) :
    Keeps i (editLocked id enabled) v fun r v' => v'.lock = some (id, l) ∧ ∀ p, r = .ok p →
      (p.id, p.provider) ∈ v'.seen := by
  unfold editLocked
  refine keeps_ask trivial ?_
  rintro (f | p)
  · exact keeps_pure ⟨h, by simp⟩
  dsimp only
  split
  · exact keeps_pure ⟨h, by simp⟩
  refine keeps_ask trivial fun now => ?_
  refine keeps_ask ⟨p, learns_owns h, rfl, rfl, by simp⟩ ?_
  rintro (f | ⟨⟨⟩⟩)
  · exact keeps_pure ⟨h, by simp⟩
  · refine keeps_pure ⟨h, ?_⟩
    rintro _ ⟨⟩
    simp [View.after, View.learns, edited]

theorem keeps_editBegin {p : Profile} (h : (p.id, p.provider) ∈ v.seen) : Keeps i (editBegin p) v anyway := by
  unfold editBegin
  split
  · refine keeps_ask h ?_
    rintro (f | op) <;> exact keeps_pure trivial
  · exact keeps_pure trivial

theorem keeps_edit {enabled : Bool} (h : v.lock = none) : Keeps i (edit id enabled) v anyway := by
  unfold edit
  refine keeps_ask trivial ?_
  rintro (f | p)
  · exact keeps_pure trivial
  refine keeps_ask trivial fun _ => ?_
  refine keeps_ask learns_met fun lock => ?_
  refine keeps_ask ⟨rfl, h⟩ ?_
  rintro (⟨⟨⟩⟩ | f)
  · refine keeps_bind (keeps_editLocked rfl) fun saved v' hv => ?_
    refine keeps_ask hv.1 fun _ => ?_
    cases saved with
    | error f => exact keeps_pure trivial
    | ok p => exact keeps_editBegin (hv.2 p rfl)
  · exact keeps_pure trivial

theorem keeps_deleteLocked (h : v.lock = some (id, l)) :
    Keeps i (deleteLocked id) v fun _ v' => v'.lock = some (id, l) := by
  unfold deleteLocked
  refine keeps_ask trivial ?_
  rintro (f | p)
  · exact keeps_pure h
  refine keeps_ask ⟨p, learns_owns h, rfl, rfl, fun _ => rfl⟩ ?_
  rintro (f | ⟨⟨⟩⟩)
  · exact keeps_pure h
  have hlock : Option.isSome v.lock := by simp [h]
  refine keeps_ask ⟨⟨l, h⟩, _, rfl, hlock⟩ ?_
  rintro (f | ⟨⟨⟩⟩)
  · exact keeps_pure h
  refine keeps_ask ⟨⟨l, h⟩, rfl, _, rfl, hlock⟩ ?_
  rintro (f | ⟨⟨⟩⟩)
  · exact keeps_pure h
  refine keeps_ask ⟨⟨l, h⟩, rfl⟩ fun _ => ?_
  refine keeps_ask ⟨⟨l, h⟩, rfl⟩ fun _ => ?_
  refine keeps_ask ⟨⟨l, h⟩, rfl, rfl, rfl⟩ fun _ => ?_
  exact keeps_pure h

theorem keeps_deleteProfile {confirm : Bool} (h : v.lock = none) :
    Keeps i (deleteProfile id confirm) v anyway := by
  unfold deleteProfile
  split
  · exact keeps_pure trivial
  refine keeps_ask trivial ?_
  rintro (f | p)
  · exact keeps_pure trivial
  refine keeps_ask trivial fun _ => ?_
  refine keeps_ask learns_met fun lock => ?_
  refine keeps_ask ⟨rfl, h⟩ ?_
  rintro (⟨⟨⟩⟩ | f)
  · refine keeps_bind (keeps_deleteLocked rfl) fun result v' hv => ?_
    exact keeps_ask hv fun _ => keeps_pure trivial
  · exact keeps_pure trivial

theorem keeps_beginFor {kind : Kind} : Keeps i (beginFor id kind) v anyway := by
  unfold beginFor
  refine keeps_ask trivial ?_
  rintro (f | p)
  · exact keeps_pure trivial
  dsimp only
  split
  · exact keeps_pure trivial
  refine keeps_ask (show (p.id, p.provider) ∈ (v.learns id p).seen by simp [View.learns]) ?_
  rintro (f | op) <;> exact keeps_pure trivial

theorem keeps_cancelAuth : Keeps i (cancelAuth id) v anyway := by
  unfold cancelAuth
  refine keeps_ask trivial ?_
  rintro (f | p)
  · exact keeps_pure trivial
  · exact keeps_ask trivial fun _ => keeps_pure trivial

theorem keeps_schedule {p : Profile} (h : (p.id, p.provider) ∈ v.seen) :
    Keeps i (schedule p) v fun _ v' => v'.seen = v.seen := by
  unfold schedule
  split
  · refine keeps_ask trivial ?_
    rintro (f | ⟨⟨⟩⟩)
    · exact keeps_pure rfl
    · refine keeps_ask h fun _ => ?_
      exact keeps_pure rfl
  · exact keeps_pure rfl

theorem keeps_scheduleAll {ps : List Profile} (h : ∀ p ∈ ps, (p.id, p.provider) ∈ v.seen) :
    Keeps i (scheduleAll ps) v anyway := by
  induction ps generalizing v with
  | nil => exact keeps_pure trivial
  | cons p ps ih =>
    refine keeps_bind (keeps_schedule (h p (by simp))) fun _ v' hv => ?_
    refine ih fun p hp => ?_
    rw [hv]
    exact h p (by simp [hp])

theorem keeps_tick : Keeps i tick v anyway := by
  unfold tick
  refine keeps_ask trivial ?_
  rintro (f | ps)
  · exact keeps_pure trivial
  · refine keeps_bind (keeps_scheduleAll fun p hp => ?_) fun _ _ _ => keeps_pure trivial
    exact List.mem_append_left _ (List.mem_map.mpr ⟨p, hp, rfl⟩)

theorem keeps_runtimeOperation {provider : Text} {kind : Kind} :
    Keeps i (runtimeOperation provider kind) v anyway := by
  unfold runtimeOperation
  refine keeps_ask trivial ?_
  rintro (f | ⟨⟨⟩⟩)
  · exact keeps_pure trivial
  refine keeps_ask trivial ?_
  rintro (f | op)
  · exact keeps_pure trivial
  refine keeps_ask trivial ?_
  rintro (f | ⟨⟨⟩⟩)
  · exact keeps_ask trivial fun _ => keeps_pure trivial
  · exact keeps_ask trivial fun _ => keeps_pure trivial

theorem keeps_handle (q : Request) : Keeps i q.handle .empty anyway := by
  cases q with
  | create provider name => exact keeps_create provider name
  | edit id enabled => exact keeps_edit rfl
  | delete id confirm => exact keeps_deleteProfile rfl
  | authenticate id => exact keeps_beginFor
  | probe id => exact keeps_beginFor
  | statistics id => exact keeps_beginFor
  | cancelAuth id => exact keeps_cancelAuth
  | cancelOperation op => exact keeps_last trivial fun _ => trivial
  | tick => exact keeps_tick
  | runtime provider kind => exact keeps_runtimeOperation

end Handlers

/-! ## Tasks -/

section Tasks

variable {i : Proc} {v : View} {id provider : Text} {l : Nat}

/-- What is held stays held. -/
structure Same (v v' : View) : Prop where
  lock : v'.lock = v.lock
  reads : v'.reads = v.reads
  writes : v'.writes = v.writes

theorem Same.refl (v : View) : Same v v := ⟨rfl, rfl, rfl⟩

theorem Same.trans {v v' v'' : View} (h : Same v v') (h' : Same v' v'') : Same v v'' :=
  ⟨h'.lock.trans h.lock, h'.reads.trans h.reads, h'.writes.trans h.writes⟩

/-- At the gate with the record of a profile; what it saves over it keeps it there. -/
structure Ready (v : View) (provider : Text) (p : Profile) : Prop where
  owns : v.Owns p
  gate : v.AtGate provider

theorem Ready.saved {p p' : Profile} (h : Ready v provider p) (hp : p'.provider = p.provider) :
    Ready { v with record := some p' } provider p' := by
  refine ⟨⟨rfl, h.owns.2⟩, ?_⟩
  rcases h.gate with hw | ⟨id, l, r, o, hl, hr, hprov, ht, hid, hread⟩
  · exact Or.inl hw
  · obtain rfl : r = p := Option.some.inj (hr.symm.trans h.owns.1)
    exact Or.inr ⟨id, l, p', o, hl, rfl, hp.trans hprov, ht, hid, hread⟩

theorem keeps_attempt {p : Profile} (h : Ready v provider p) :
    Keeps i (attempt provider p) v fun _ v' => Same v v' ∧ Ready v' provider p := by
  unfold attempt
  have hv : Ready { v with filesGone := false } provider p := ⟨h.owns, h.gate⟩
  refine keeps_ask (Or.inr ⟨p, h.owns, rfl⟩) ?_
  rintro (f | ⟨⟨⟩⟩)
  · exact keeps_pure ⟨⟨rfl, rfl, rfl⟩, hv⟩
  · exact keeps_last hv.gate fun _ => ⟨⟨rfl, rfl, rfl⟩, hv⟩

theorem keeps_attempts {p : Profile} (h : Ready v p.provider p) :
    Keeps i (attempts p) v fun _ v' => Same v v' ∧ Ready v' p.provider p := by
  unfold attempts
  refine keeps_bind (keeps_attempt h) fun r v' hv => ?_
  rcases r with (f | a) | f
  · dsimp only
    split
    · refine keeps_ask trivial ?_
      rintro ((g | ⟨⟨⟩⟩) | g)
      · exact keeps_pure hv
      · exact wp_mono (keeps_attempt hv.2) fun _ _ hv' => ⟨hv.1.trans hv'.1, hv'.2⟩
      · exact keeps_pure hv
    · exact keeps_pure hv
  · exact keeps_pure hv
  · exact keeps_pure hv

theorem keeps_authenticateLocked {p : Profile} (h : Ready v p.provider p) :
    Keeps i (authenticateLocked p) v fun _ v' => Same v v' := by
  unfold authenticateLocked
  have hv : Ready { v with filesGone := false } p.provider p := ⟨h.owns, h.gate⟩
  refine keeps_ask (Or.inr ⟨p, h.owns, rfl⟩) ?_
  rintro (f | ⟨⟨⟩⟩)
  · exact keeps_pure ⟨rfl, rfl, rfl⟩
  refine keeps_ask hv.gate ?_
  rintro ((f | account) | f)
  · exact keeps_pure ⟨rfl, rfl, rfl⟩
  · refine keeps_ask trivial fun now => ?_
    refine keeps_last ⟨p, hv.owns, rfl, rfl, fun _ => rfl⟩ ?_
    rintro (f | ⟨⟨⟩⟩) <;> exact ⟨rfl, rfl, rfl⟩
  · exact keeps_pure ⟨rfl, rfl, rfl⟩

theorem keeps_statisticsLocked {p : Profile} (h : Ready v p.provider p) :
    Keeps i (statisticsLocked p) v fun _ v' => Same v v' := by
  unfold statisticsLocked
  have hv : Ready { v with filesGone := false } p.provider p := ⟨h.owns, h.gate⟩
  refine keeps_ask (Or.inr ⟨p, h.owns, rfl⟩) ?_
  rintro (f | ⟨⟨⟩⟩)
  · exact keeps_pure ⟨rfl, rfl, rfl⟩
  refine keeps_ask hv.gate ?_
  rintro (r | f) <;> exact keeps_pure ⟨rfl, rfl, rfl⟩

theorem keeps_settle {p : Profile} (r : Except Failure Snapshot) (h : Ready v p.provider p) :
    Keeps i (settle p r) v fun _ v' => Same v v' := by
  cases r with
  | ok snapshot =>
    refine keeps_ask trivial fun now => ?_
    refine keeps_ask ⟨p, h.owns, rfl, rfl, fun _ => rfl⟩ ?_
    rintro (f | ⟨⟨⟩⟩)
    · exact keeps_pure ⟨rfl, rfl, rfl⟩
    · exact keeps_last trivial fun _ => ⟨rfl, rfl, rfl⟩
  | error e =>
    refine keeps_ask trivial fun now => ?_
    refine keeps_ask ⟨p, h.owns, rfl, rfl, fun _ => rfl⟩ ?_
    rintro (f | ⟨⟨⟩⟩) <;> exact keeps_pure ⟨rfl, rfl, rfl⟩

theorem keeps_probeLocked {p : Profile} (h : Ready v p.provider p) :
    Keeps i (probeLocked p) v fun _ v' => Same v v' := by
  unfold probeLocked
  refine keeps_ask trivial fun now => ?_
  refine keeps_ask ⟨p, h.owns, rfl, rfl, fun _ => rfl⟩ ?_
  rintro (f | ⟨⟨⟩⟩)
  · exact keeps_pure ⟨rfl, rfl, rfl⟩
  refine keeps_ask trivial ?_
  rintro (f | ⟨⟨⟩⟩)
  · exact keeps_pure ⟨rfl, rfl, rfl⟩
  refine keeps_bind (keeps_attempts (h.saved rfl)) fun r v' hv => ?_
  have hs : Same v v' := ⟨hv.1.lock, hv.1.reads, hv.1.writes⟩
  cases r with
  | dropped f => exact keeps_pure hs
  | done r => exact wp_mono (keeps_settle r hv.2) fun _ _ hv' => hs.trans hv'

theorem keeps_operationLocked {kind : Kind} {o : Operation} (hl : v.lock = some (id, l))
    (ht : v.task = some o) (hid : o.profileId = some id) (hr : v.reads = some o.provider) :
    Keeps i (operationLocked id kind) v fun _ v' => Same v v' := by
  unfold operationLocked
  refine keeps_ask trivial ?_
  rintro (⟨⟨⟩⟩ | f)
  · refine keeps_ask trivial ?_
    rintro (f | p)
    · exact keeps_pure (.refl v)
    have hs : Same v (v.learns id p) := ⟨rfl, rfl, rfl⟩
    have hready : Ready (v.learns id p) p.provider p :=
      ⟨learns_owns hl, Or.inr ⟨id, l, p, o, hl, (learns_owns hl).1, rfl, ht, hid, hr⟩⟩
    dsimp only
    split
    · exact keeps_pure hs
    split
    · exact keeps_pure hs
    split
    · exact keeps_pure hs
    cases kind with
    | authentication => exact wp_mono (keeps_authenticateLocked hready) fun _ _ hv => hs.trans hv
    | statistics => exact wp_mono (keeps_statisticsLocked hready) fun _ _ hv => hs.trans hv
    | _ => exact wp_mono (keeps_probeLocked hready) fun _ _ hv => hs.trans hv
  · exact keeps_pure (.refl v)

/-- Nothing is held. -/
structure Idle (v : View) : Prop where
  lock : v.lock = none
  reads : v.reads = none
  writes : v.writes = none

theorem Same.idle {v v' : View} (h : Same v v') (hv : Idle v) : Idle v' :=
  ⟨h.lock.trans hv.lock, h.reads.trans hv.reads, h.writes.trans hv.writes⟩

theorem keeps_operationBody {kind : Kind} {o : Operation} (h : Idle v) (ht : v.task = some o)
    (hid : o.profileId = some id) (hseen : (id, o.provider) ∈ v.seen) :
    Keeps i (operationBody id o.provider kind) v fun _ v' => Idle v' := by
  unfold operationBody
  split
  · exact keeps_pure h
  refine keeps_ask ⟨h.reads, h.writes⟩ ?_
  rintro (⟨⟨⟩⟩ | f)
  · refine keeps_ask ⟨o.provider, hseen⟩ fun lock => ?_
    refine keeps_ask ⟨rfl, h.lock⟩ ?_
    rintro (⟨⟨⟩⟩ | f)
    · refine keeps_bind (keeps_operationLocked rfl ht hid rfl) fun result v' hv => ?_
      refine keeps_ask hv.lock fun _ => ?_
      refine keeps_ask hv.reads fun _ => ?_
      exact keeps_pure ⟨rfl, rfl, hv.writes.trans h.writes⟩
    · refine keeps_ask rfl fun _ => ?_
      exact keeps_pure ⟨h.lock, rfl, h.writes⟩
  · exact keeps_pure h

theorem keeps_noteFailure {f : Failure} (h : Idle v) (hm : v.Met id) :
    Keeps i (noteFailure id f) v anyway := by
  unfold noteFailure
  refine keeps_ask hm fun lock => ?_
  refine keeps_ask ⟨rfl, h.lock⟩ ?_
  rintro (⟨⟨⟩⟩ | g)
  · refine keeps_ask trivial ?_
    rintro (g | p)
    · exact keeps_last rfl fun _ => trivial
    dsimp only
    split
    · exact keeps_last rfl fun _ => trivial
    refine keeps_ask trivial fun now => ?_
    refine keeps_ask ⟨p, learns_owns rfl, rfl, rfl, fun _ => rfl⟩ ?_
    rintro (g | ⟨⟨⟩⟩) <;> exact keeps_last rfl fun _ => trivial
  · exact keeps_pure trivial

theorem keeps_conclude {op : Nat} : Keeps i (conclude op) v anyway := by
  unfold conclude
  refine keeps_ask trivial fun _ => ?_
  refine keeps_ask trivial ?_
  rintro (f | o)
  · exact keeps_pure trivial
  · exact keeps_ask trivial fun _ => keeps_pure trivial

theorem keeps_follow {kind : Kind} (result : Result) : Keeps i (follow id kind result) v anyway := by
  rcases result with f | ⟨⟨⟩⟩
  · exact keeps_pure trivial
  simp only [follow]
  split
  · refine keeps_ask trivial ?_
    rintro (f | p)
    · exact keeps_pure trivial
    dsimp only
    split
    · refine keeps_ask (show (p.id, p.provider) ∈ (v.learns id p).seen by simp [View.learns]) fun _ => ?_
      exact keeps_pure trivial
    · exact keeps_pure trivial
  · exact keeps_pure trivial

theorem keeps_profileTask {op : Nat} {kind : Kind} {o : Operation} (h : Idle v) (ht : v.task = some o)
    (hid : o.profileId = some id) (hseen : (id, o.provider) ∈ v.seen) :
    Keeps i (profileTask op id o.provider kind) v anyway := by
  unfold profileTask
  refine keeps_bind (keeps_seen (keeps_operationBody h ht hid hseen)) fun result v' hv => ?_
  have hmet : v'.Met id := ⟨o.provider, hv.2 hseen⟩
  rcases result with f | ⟨⟨⟩⟩
  · dsimp only
    split
    · refine keeps_bind (keeps_noteFailure hv.1 hmet) fun _ _ _ => ?_
      exact keeps_bind keeps_conclude fun _ _ _ => keeps_follow (.error f)
    · exact keeps_bind keeps_conclude fun _ _ _ => keeps_follow (.error f)
  · exact keeps_bind keeps_conclude fun _ _ _ => keeps_follow (.ok ())

theorem keeps_verifyLocked (hl : v.lock = some (id, l)) (hw : v.writes = some provider) :
    Keeps i (verifyLocked provider id) v fun _ v' => Same v v' := by
  unfold verifyLocked
  refine keeps_ask trivial ?_
  rintro (f | p)
  · exact keeps_pure (.refl v)
  have hs : Same v (v.learns id p) := ⟨rfl, rfl, rfl⟩
  have hready : Ready (v.learns id p) provider p := ⟨learns_owns hl, Or.inl hw⟩
  dsimp only
  split
  · exact keeps_pure hs
  refine keeps_ask hready.gate ?_
  rintro ((f | ⟨⟨⟩⟩) | f)
  · exact keeps_pure hs
  · refine keeps_bind (keeps_attempt hready) fun r v' hv => ?_
    have hs' : Same v v' := hs.trans hv.1
    rcases r with (f | snapshot) | f
    · exact keeps_pure hs'
    · refine keeps_ask trivial ?_
      rintro (f | ⟨⟨⟩⟩)
      · exact keeps_pure hs'
      refine keeps_ask trivial fun now => ?_
      refine keeps_last ⟨p, hv.2.owns, rfl, rfl, fun _ => rfl⟩ ?_
      rintro (f | ⟨⟨⟩⟩) <;> exact hs'.trans ⟨rfl, rfl, rfl⟩
    · exact keeps_pure hs'
  · exact keeps_pure hs

theorem keeps_runtimeExclusive {kind : Kind} (hl : v.lock = none) (hw : v.writes = some provider) :
    Keeps i (runtimeExclusive provider kind) v fun _ v' => v'.writes = some provider := by
  unfold runtimeExclusive
  refine keeps_ask trivial ?_
  rintro (⟨⟨⟩⟩ | f)
  · refine keeps_ask trivial ?_
    rintro (f | ⟨⟨⟩⟩)
    · exact keeps_pure hw
    dsimp only
    split
    · refine keeps_ask (Or.inl hw) ?_
      rintro (r | f) <;> exact keeps_pure hw
    · refine keeps_ask trivial ?_
      rintro (f | ps)
      · exact keeps_pure hw
      dsimp only
      split
      · exact keeps_pure hw
      next p hp =>
        have hseen : (p.id, p.provider) ∈ (v.after ⟨.profiles, .ok ps⟩).seen :=
          List.mem_append_left _ (List.mem_map.mpr ⟨p, List.mem_of_find?_eq_some hp, rfl⟩)
        refine keeps_ask ⟨p.provider, hseen⟩ fun lock => ?_
        refine keeps_ask ⟨rfl, hl⟩ ?_
        rintro (⟨⟨⟩⟩ | f)
        · refine keeps_bind (keeps_verifyLocked rfl hw) fun result v' hv => ?_
          refine keeps_ask hv.lock fun _ => ?_
          exact keeps_pure (hv.writes.trans hw)
        · exact keeps_pure hw
  · exact keeps_pure hw

theorem keeps_runtimeTask {op : Nat} {kind : Kind} (h : Idle v) :
    Keeps i (runtimeTask op provider kind) v anyway := by
  unfold runtimeTask
  split
  · exact keeps_bind keeps_conclude fun _ _ _ => keeps_pure trivial
  refine keeps_ask ⟨h.reads, h.writes⟩ ?_
  rintro (⟨⟨⟩⟩ | f)
  · refine keeps_bind (keeps_runtimeExclusive h.lock rfl) fun result v' hv => ?_
    refine keeps_ask hv fun _ => ?_
    exact keeps_bind keeps_conclude fun _ _ _ => keeps_pure trivial
  · exact keeps_bind keeps_conclude fun _ _ _ => keeps_pure trivial

theorem keeps_task (op : Nat) : Keeps (.task op) (task op) .empty anyway := by
  unfold task
  refine keeps_ask rfl fun o => ?_
  cases hid : o.profileId with
  | some id => exact keeps_profileTask ⟨rfl, rfl, rfl⟩ rfl hid (by simp [View.after, View.empty, hid])
  | none => exact keeps_runtimeTask ⟨rfl, rfl, rfl⟩

end Tasks

theorem keeps_program (requests : Nat → Request) (i : Proc) : Keeps i (program requests i) .empty anyway := by
  cases i with
  | request n => exact keeps_handle (requests n)
  | task op => exact keeps_task op

/-- Each process asks only what its own questions so far allow. -/
theorem program_allows (requests : Nat → Request) (i : Proc) :
    wp anything (fun h q => (view h).Allows i q) (program requests i) [] fun _ _ => True := by
  have hnext : ∀ {h : List (Event Ask Ask.Answer)} {q r h'}, anything.next h q r h' →
      viewing.next (view h) q r (view h') := by
    intro h q r h' hh
    subst hh
    rfl
  have hkeeps : wp viewing (View.Allows i) (program requests i) (view []) anyway := keeps_program requests i
  exact wp_map view hnext (fun h => h) hkeeps

end HomeStack.Accounts
