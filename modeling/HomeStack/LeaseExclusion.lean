import HomeStack.LeaseRuns
import HomeStack.Lib.Result
import HomeStack.Lifecycle

/-! A lease that was written stays until it ends, in every interleaving. -/

namespace HomeStack.Leasing

open Prog Op Pool

section Effects

variable {B : Base64} {SL : Serde Lease} {SJ : Serde Journal} {D : Digests} {vmid : Nat} {user : Text}

theorem readLease_congr {c c' : VmConfig} (h : c'.description = c.description) :
    readLease B SL c' = readLease B SL c := by
  unfold readLease
  rw [h]

/-- The lease that is read depends on the lease block only. -/
theorem readLease_of_block {c c' : VmConfig} {val val' : Payloads} (h : Laid user c.description val)
    (h' : Laid user c'.description val') (hval : val' .lease = val .lease) :
    readLease B SL c' = readLease B SL c := by
  cases hv : val .lease with
  | none =>
    have hnone : val .lease = (none : Option Lease).map (Codec.encode B SL) := hv
    rw [readLease_of_laid h hnone, readLease_of_laid h' (hval.trans hnone)]
  | some p =>
    obtain ⟨f, hf, hp⟩ := h.find_some hv
    obtain ⟨f', hf', hp'⟩ := h'.find_some (hval.trans hv)
    have hf : Description.find c.description Lease.leaseStart Lease.leaseEnd Lease.label = .ok (some f) := hf
    have hf' : Description.find c'.description Lease.leaseStart Lease.leaseEnd Lease.label = .ok (some f') :=
      hf'
    simp only [readLease, hf, hf', Bind.bind, Except.bind, hp, hp']

/-- The lease after an accepted change. -/
def Proc.LeaseAfter (B : Base64) (SL : Serde Lease) (c c' : VmConfig) : Proc → Prop
  | .acquire holder => readLease B SL c' = .ok (some holder.lease)
  | .release .. => readLease B SL c' = .ok none
  | .journal .. => readLease B SL c' = readLease B SL c

theorem Proc.Changes.leaseAfter {p : Proc} {h : History} {c c' : VmConfig} {val : Payloads}
    (hlaid : Laid user c.description val) (hc : p.Changes B SL SJ vmid h c c'.description) :
    (∃ val', Laid user c'.description val') ∧ p.LeaseAfter B SL c c' := by
  have hset : ∀ (k : Kind) (payload : Option Text), (∀ q ∈ payload, Description.Clean q) →
      k.markers.withBlock c.description payload = .ok c'.description →
      Laid user c'.description (Function.update val k payload) := by
    intro k payload hclean hd
    obtain ⟨d', hd', hl⟩ := hlaid.withBlock_step k payload hclean
    cases hd.symm.trans hd'
    exact hl
  cases p with
  | acquire holder =>
    obtain ⟨-, -, -, -, -, hd⟩ := hc
    have hl := hset .lease (some _) (by rintro q ⟨⟩; exact encode_clean holder.lease) hd
    exact ⟨⟨_, hl⟩, readLease_of_laid hl (Function.update_self ..)⟩
  | release inst job =>
    obtain ⟨-, -, -, -, hd⟩ := hc
    have hl := hset .lease none (by simp) hd
    have hnone : Function.update val Kind.lease none .lease = (none : Option Lease).map (Codec.encode B SL) :=
      Function.update_self ..
    exact ⟨⟨_, hl⟩, readLease_of_laid hl hnone⟩
  | journal node entry =>
    have hl := hset .journal (entry.map (Codec.encode B SJ))
      (by rintro q hq; obtain ⟨j, -, rfl⟩ := Option.map_eq_some_iff.mp hq; exact encode_clean j) hc
    refine ⟨⟨_, hl⟩, readLease_of_block hlaid hl ?_⟩
    exact Function.update_of_ne (by decide) _ _

end Effects

section Runs

variable {B : Base64} {SL : Serde Lease} {SJ : Serde Journal} {D : Digests} {vmid : Nat} {user : Text}
variable {ι : Type} [DecidableEq ι] {proc : ι → Proc}

abbrev LeaseState (ι : Type) := State ι Call Call.Answer Vm (Except CoreError (Option Acquisition))

abbrev LeaseEntry (ι : Type) := Entry ι Call Call.Answer Vm

/-- Everything that runs, before any of it asked anything. -/
def begin (B : Base64) (SL : Serde Lease) (SJ : Serde Journal) (vmid : Nat) (proc : ι → Proc) (vm : Vm) :
    LeaseState ι :=
  start (fun i => (proc i).prog B SL SJ vmid) vm

/-- The description holds the user's text and HomeStack's blocks, and what was
read and written was so. -/
structure Good (B : Base64) (SL : Serde Lease) (D : Digests) (vmid : Nat) (user : Text) (proc : ι → Proc)
    (s : LeaseState ι) : Prop where
  stamped : D.Stamped s.shared.config
  laid : ∃ val, Laid user s.shared.config.description val
  read : ∀ e ∈ s.log, D.Stamped e.before.config
  wrote : ∀ e ∈ s.log, ∀ holder, proc e.proc = .acquire holder → ∀ node form v,
    e.event = ⟨.put (.config node vmid) form, .ok v⟩ → readLease B SL e.after.config = .ok (some holder.lease)

theorem Good.told {vm : Vm} {s : LeaseState ι} (hg : Good B SL D vmid user proc s)
    (hr : Run (world D vmid proc) (begin B SL SJ vmid proc vm) s) (i : ι) : Told D vmid (own i s.log) where
  config node map hm := by
    obtain ⟨e, he, rfl, hevent⟩ := mem_own.mp hm
    have hnext := (hr.next e he).2
    rw [hevent] at hnext
    obtain ⟨map', hmap', hconfig⟩ := hnext.2 rfl _ rfl
    cases hmap'
    rw [hconfig]
    exact hg.read e he
  pending node entries hm := by
    obtain ⟨e, he, rfl, hevent⟩ := mem_own.mp hm
    have hnext := (hr.next e he).2
    rw [hevent] at hnext
    exact hnext.2 rfl _ rfl

/-- An answer leaves the VM alone, or it accepted a change. -/
theorem answers_cases {s t : Vm} {q : Call} {r : q.Answer} (h : Answers D vmid s q r t) :
    t = s ∧ (∀ node form v, (⟨q, r⟩ : Event Call Call.Answer) ≠ ⟨.put (.config node vmid) form, .ok v⟩) ∨
      ∃ node form, q = .put (.config node vmid) form ∧ Accepts s.config form ∧
        t = { s with config := D.stamp (form.foldl setField s.config) } := by
  cases q with
  | put path form =>
    cases path with
    | config node v =>
      rcases h with ⟨ht, hrefused⟩ | ⟨rfl, haccept, ht⟩
      · refine Or.inl ⟨ht, ?_⟩
        rintro node form v ⟨⟩
        obtain ⟨e, he⟩ := hrefused rfl
        cases he
      · exact Or.inr ⟨node, form, rfl, haccept, ht⟩
    | _ => exact Or.inl ⟨h, by rintro node form v ⟨⟩⟩
  | get path query =>
    refine Or.inl ⟨?_, by rintro node form v ⟨⟩⟩
    cases path with
    | config => exact h.1
    | pending => exact h.1
    | _ => exact h
  | _ => exact Or.inl ⟨h, by rintro node form v ⟨⟩⟩

/-- What one question does: nothing, or a change of the asking process's kind,
from the description as it is. -/
theorem effect {vm t : Vm} {s : LeaseState ι} (hg : Good B SL D vmid user proc s)
    (hr : Run (world D vmid proc) (begin B SL SJ vmid proc vm) s) {i : ι} {q : Call} {k : q.Answer →
      _} {r : q.Answer}
    (hleft : s.left i = .ask q k) (hnext : Answers D vmid s.shared q r t) :
    (t = s.shared ∧ ∀ node form v, (⟨q, r⟩ : Event Call Call.Answer) ≠
      ⟨.put (.config node vmid) form, .ok v⟩) ∨
      (t.clock = s.shared.clock ∧ D.Stamped t.config ∧ (∃ val, Laid user t.config.description val) ∧
        (proc i).LeaseAfter B SL s.shared.config t.config ∧
        (proc i).Changes B SL SJ vmid (own i s.log) s.shared.config t.config.description) := by
  rcases answers_cases hnext with hsame | ⟨node, form, rfl, haccept, rfl⟩
  · exact Or.inl hsame
  · have hguard := hr.wp (fun i => (proc i).guarded) i
    rw [hleft] at hguard
    have hwrites := hguard.1 node form rfl
    have hchanges := hwrites.changes (hg.told hr i) hg.stamped haccept
    obtain ⟨val, hlaid⟩ := hg.laid
    obtain ⟨hlaid', hlease⟩ := Proc.Changes.leaseAfter hlaid hchanges
    exact Or.inr ⟨rfl, D.stamped_stamp _, hlaid', hlease, hchanges⟩

theorem Good.run {vm : Vm} (hvm : D.Stamped vm.config) (hlaid : ∃ val, Laid user vm.config.description val)
    {s : LeaseState ι} (hr : Run (world D vmid proc) (begin B SL SJ vmid proc vm) s) :
    Good B SL D vmid user proc s := by
  induction hr with
  | refl => exact ⟨hvm, hlaid, by simp [begin, start], by simp [begin, start]⟩
  | tail hrun hstep ih =>
    cases hstep with
    | @ask i q k r t hleft hnext =>
      rcases effect ih hrun hleft hnext.2 with ⟨rfl, hnot⟩ | ⟨-, hst, hl, hlease, -⟩
      · refine ⟨ih.stamped, ih.laid, ?_, ?_⟩
        · intro e he
          rcases List.mem_cons.mp he with rfl | he
          · exact ih.stamped
          · exact ih.read e he
        · intro e he
          rcases List.mem_cons.mp he with rfl | he
          · intro holder _ node form v hevent
            exact absurd hevent (hnot node form v)
          · exact ih.wrote e he
      · refine ⟨hst, hl, ?_, ?_⟩
        · intro e he
          rcases List.mem_cons.mp he with rfl | he
          · exact ih.stamped
          · exact ih.read e he
        · intro e he
          rcases List.mem_cons.mp he with rfl | he
          · intro holder hproc _ _ _ _
            dsimp only at hproc
            rw [hproc] at hlease
            exact hlease
          · exact ih.wrote e he
    | idle h =>
      refine ⟨h.2.1, ?_, ih.read, ih.wrote⟩
      obtain ⟨val, hl⟩ := ih.laid
      exact ⟨val, h.2.2 ▸ hl⟩

/-! ## Before and after a lease is written -/

/-- The configuration holds a lease of this job. -/
def HoldsOf (B : Base64) (SL : Serde Lease) (holder : Holder) (c : VmConfig) : Prop :=
  ∃ l, readLease B SL c = .ok (some l) ∧ l.inst = holder.inst ∧ l.job = holder.job

/-- What ends a lease before its time: its job's release, or its instance says
that it does not run the job. -/
def Ends (proc : ι → Proc) (holder : Holder) (e : LeaseEntry ι) : Prop :=
  proc e.proc = .release holder.inst holder.job ∨ e.event = ⟨.running holder.inst holder.job, false⟩

/-- Another `acquire` or a `release` changed nothing. -/
def Kept (proc : ι → Proc) (i : ι) (e : LeaseEntry ι) : Prop :=
  ((∃ holder, proc e.proc = .acquire holder) ∧ e.proc ≠ i) ∨ (∃ inst job, proc e.proc = .release inst job) →
    e.after = e.before

/-- The lease was not written yet. -/
def NotYet (B : Base64) (SL : Serde Lease) (holder : Holder) (s : LeaseState ι) : Prop :=
  ¬HoldsOf B SL holder s.shared.config ∧
    ∀ e ∈ s.log, ¬HoldsOf B SL holder e.before.config ∧ ¬HoldsOf B SL holder e.after.config

/-- The lease was first written by `w`, and it is there unless it ended. -/
structure WrittenBy (B : Base64) (SL : Serde Lease) (proc : ι → Proc) (i : ι) (holder : Holder)
    (s : LeaseState ι) (after : List (LeaseEntry ι)) (w : LeaseEntry ι) (before : List (LeaseEntry ι)) :
    Prop where
  log : s.log = after ++ w :: before
  writer : w.proc = i
  fresh : ∀ e ∈ w :: before, ¬HoldsOf B SL holder e.before.config
  lease : readLease B SL w.after.config = .ok (some holder.lease)
  holds : (∀ e ∈ after, ¬Ends proc holder e) → s.shared.clock < holder.lease.expiresAt →
    readLease B SL s.shared.config = .ok (some holder.lease) ∧
      ∀ e ∈ after, readLease B SL e.after.config = .ok (some holder.lease) ∧ Kept proc i e

theorem holdsOf_congr {holder : Holder} {c c' : VmConfig} (h : readLease B SL c' = readLease B SL c) :
    HoldsOf B SL holder c' ↔ HoldsOf B SL holder c := by
  unfold HoldsOf
  rw [h]

theorem not_holdsOf {holder : Holder} {c : VmConfig} {lease : Option Lease} (h : readLease B SL c = .ok lease)
    (hl : ∀ l, lease = some l → ¬(l.inst = holder.inst ∧ l.job = holder.job)) : ¬HoldsOf B SL holder c := by
  rintro ⟨l, hread, hsame⟩
  rw [h] at hread
  cases hread
  exact hl l rfl hsame

omit [DecidableEq ι] in
theorem NotYet.same {holder : Holder} {s : LeaseState ι} (h : NotYet B SL holder s) {e : LeaseEntry ι}
    (hb : e.before = s.shared) (ha : ¬HoldsOf B SL holder e.after.config) :
    ∀ e' ∈ e :: s.log, ¬HoldsOf B SL holder e'.before.config ∧ ¬HoldsOf B SL holder e'.after.config := by
  intro e' he
  rcases List.mem_cons.mp he with rfl | he
  · rw [hb]
    exact ⟨h.1, ha⟩
  · exact h.2 e' he

variable {vm : Vm} {s : LeaseState ι} {i : ι} {holder : Holder}

section Job

-- the one `acquire` of this job, and nobody wrote its lease before the run
variable (hi : proc i = .acquire holder)
  (once : ∀ j holder', proc j = .acquire holder' → holder'.inst = holder.inst →
    holder'.job = holder.job → j = i)

include hi once

/-- Only this job's `acquire` writes its lease. -/
theorem NotYet.step {s' : LeaseState ι} (hn : NotYet B SL holder s)
    (hr : Run (world D vmid proc) (begin B SL SJ vmid proc vm) s) (hg : Good B SL D vmid user proc s)
    (hstep : Step (world D vmid proc) s s') :
    NotYet B SL holder s' ∨ ∃ after w before, WrittenBy B SL proc i holder s' after w before := by
  cases hstep with
  | idle h =>
    refine Or.inl ⟨?_, hn.2⟩
    rw [holdsOf_congr (readLease_congr h.2.2)]
    exact hn.1
  | @ask j q k r t hleft hnext =>
    rcases effect hg hr hleft hnext.2 with ⟨rfl, -⟩ | ⟨-, -, -, hlease, -⟩
    · exact Or.inl ⟨hn.1, hn.same rfl hn.1⟩
    · have hnot : ∀ {lease : Option Lease}, readLease B SL t.config = .ok lease →
          (∀ l, lease = some l → ¬(l.inst = holder.inst ∧ l.job = holder.job)) →
          NotYet B SL holder ⟨t, Function.update s.left j (k r), ⟨j, ⟨q, r⟩, s.shared, t⟩ :: s.log⟩ := by
        intro lease hread hl
        have hno := not_holdsOf hread hl
        exact ⟨hno, hn.same rfl hno⟩
      cases hp : proc j with
      | acquire holder' =>
        rw [hp] at hlease
        by_cases hj : j = i
        · subst hj
          rw [hi] at hp
          cases hp
          refine Or.inr ⟨[], _, s.log, rfl, rfl, ?_, hlease, fun _ _ => ⟨hlease, by simp⟩⟩
          intro e he
          rcases List.mem_cons.mp he with rfl | he
          · exact hn.1
          · exact (hn.2 e he).1
        · refine Or.inl (hnot hlease ?_)
          rintro l ⟨⟩ ⟨hinst, hjob⟩
          exact hj (once j holder' hp hinst hjob)
      | release inst job =>
        rw [hp] at hlease
        exact Or.inl (hnot hlease (by simp))
      | journal node entry =>
        rw [hp] at hlease
        have hno : ¬HoldsOf B SL holder t.config := by
          rw [holdsOf_congr hlease]
          exact hn.1
        exact Or.inl ⟨hno, hn.same rfl hno⟩

omit hi in
/-- While a lease holds, nobody else passes the check on it. -/
theorem WrittenBy.not_passed {after before : List (LeaseEntry ι)} {w : LeaseEntry ι}
    (hw : WrittenBy B SL proc i holder s after w before)
    (hr : Run (world D vmid proc) (begin B SL SJ vmid proc vm) s) (hno : ∀ e ∈ after, ¬Ends proc holder e)
    (hclock : s.shared.clock < holder.lease.expiresAt)
    (hlease : readLease B SL s.shared.config = .ok (some holder.lease)) {j : ι}
    {holder' : Holder} {since : History}
    (hj : proc j = .acquire holder') (hne : j ≠ i) (hstarted : holder'.now ≤ s.shared.clock)
    (hread : ReadSince vmid (own j s.log) s.shared.config since)
    (hpassed : Passed holder' (some holder.lease) since) :
    False := by
  rcases hpassed _ rfl with ⟨hinst, hjob | hasked⟩ | hexpired
  · exact hne (once j holder' hj hinst.symm hjob.symm)
  · -- the configuration with the lease was read after it was written, and the question asked after that
    obtain ⟨node, map, earlier, hown, hmap⟩ := hread
    rw [hw.log] at hown
    have hnew : ⟨Call.get (.config node vmid) [], .ok (.obj map)⟩ ∉ own j (w :: before) := by
      intro hm
      obtain ⟨e, he, -, hevent⟩ := mem_own.mp hm
      have hnext := (hr.next e (hw.log ▸ List.mem_append_right _ he)).2
      rw [hevent] at hnext
      obtain ⟨map', hmap', hconfig⟩ := hnext.2 rfl _ rfl
      cases hmap'
      refine hw.fresh e he ⟨holder.lease, ?_, rfl, rfl⟩
      rw [← hconfig, hmap]
      exact hlease
    obtain ⟨e, he, -, hevent⟩ := mem_own.mp (own_later hown hnew hasked)
    rw [← hinst] at hevent
    exact hno e he (Or.inr hevent)
  · exact absurd (hexpired.trans hstarted) (not_le.mpr hclock)

theorem WrittenBy.step {s' : LeaseState ι} {after before : List (LeaseEntry ι)} {w : LeaseEntry ι}
    (hw : WrittenBy B SL proc i holder s after w before)
    (hr : Run (world D vmid proc) (begin B SL SJ vmid proc vm) s) (hg : Good B SL D vmid user proc s)
    (hstep : Step (world D vmid proc) s s') : ∃ after', WrittenBy B SL proc i holder s' after' w before := by
  cases hstep with
  | idle h =>
    refine ⟨after, hw.log, hw.writer, hw.fresh, hw.lease, fun hno hclock => ?_⟩
    obtain ⟨hlease, hall⟩ := hw.holds hno (lt_of_le_of_lt h.1 hclock)
    exact ⟨(readLease_congr h.2.2).trans hlease, hall⟩
  | @ask j q k r t hleft hnext =>
    refine ⟨⟨j, ⟨q, r⟩, s.shared, t⟩ :: after, by rw [hw.log]; rfl, hw.writer, hw.fresh, hw.lease, ?_⟩
    intro hno hclock
    have hno' : ∀ e ∈ after, ¬Ends proc holder e := fun e he => hno e (List.mem_cons_of_mem _ he)
    have hadd : readLease B SL t.config = .ok (some holder.lease) → s.shared.clock < holder.lease.expiresAt →
        Kept proc i ⟨j, ⟨q, r⟩, s.shared, t⟩ → readLease B SL t.config = .ok (some holder.lease) ∧
          ∀ e ∈ (⟨j, ⟨q, r⟩, s.shared, t⟩ : LeaseEntry ι) :: after,
            readLease B SL e.after.config = .ok (some holder.lease) ∧ Kept proc i e := by
      intro hlease hbefore hkept
      refine ⟨hlease, fun e he => ?_⟩
      rcases List.mem_cons.mp he with rfl | he
      · exact ⟨hlease, hkept⟩
      · exact (hw.holds hno' hbefore).2 e he
    rcases effect hg hr hleft hnext.2 with ⟨rfl, -⟩ | ⟨hsame, -, -, hafter, hchanges⟩
    · exact hadd (hw.holds hno' hclock).1 hclock fun _ => rfl
    · have hbefore : s.shared.clock < holder.lease.expiresAt := hsame ▸ hclock
      obtain ⟨hlease, -⟩ := hw.holds hno' hbefore
      cases hp : proc j with
      | acquire holder' =>
        rw [hp] at hafter hchanges
        by_cases hj : j = i
        · subst hj
          rw [hi] at hp
          cases hp
          refine hadd hafter hbefore ?_
          rintro (⟨-, hne⟩ | ⟨inst, job, hrel⟩)
          · exact absurd rfl hne
          · rw [hi] at hrel
            cases hrel
        · obtain ⟨since, lease, hread, hcurrent, hpassed, -⟩ := hchanges
          cases hlease.symm.trans hcurrent
          have hstarted := hnext.1
          rw [hp] at hstarted
          exact (hw.not_passed once hr hno' hbefore hlease hp hj hstarted hread hpassed).elim
      | release inst job =>
        rw [hp] at hchanges
        obtain ⟨lease, hcurrent, hinst, hjob, -⟩ := hchanges
        cases hlease.symm.trans hcurrent
        refine absurd (Or.inl ?_) (hno _ List.mem_cons_self)
        rw [hp, ← hinst, ← hjob]
        rfl
      | journal node entry =>
        rw [hp] at hafter
        refine hadd (hafter.trans hlease) hbefore ?_
        rintro (⟨⟨h', hacq⟩, -⟩ | ⟨inst, job, hrel⟩)
        · rw [hp] at hacq
          cases hacq
        · rw [hp] at hrel
          cases hrel

/-- The lease was not written yet, or it is there unless it ended. -/
theorem phase (hvm : D.Stamped vm.config) (hlaid : ∃ val, Laid user vm.config.description val)
    (hfresh : ¬HoldsOf B SL holder vm.config) (hr : Run (world D vmid proc) (begin B SL SJ vmid proc vm) s) :
    NotYet B SL holder s ∨ ∃ after w before, WrittenBy B SL proc i holder s after w before := by
  induction hr with
  | refl => exact Or.inl ⟨hfresh, by simp [begin, start]⟩
  | tail hrun hstep ih =>
    have hg := Good.run hvm hlaid hrun
    rcases ih with hn | ⟨after, w, before, hw⟩
    · exact hn.step hi once hrun hg hstep
    · obtain ⟨after', hw'⟩ := hw.step hi once hrun hg hstep
      exact Or.inr ⟨after', w, before, hw'⟩

/-- **A lease excludes everyone else.** Once `acquire` of a job has returned,
there was a moment when its lease was written; from then on, as long as the
lease has not expired, the job's `release` did not ask anything and its
instance did not say that it does not run the job, the description holds
exactly that lease, no other `acquire` writes one, and no `release` removes
it. -/
theorem lease_excludes_others (hvm : D.Stamped vm.config) (hlaid : ∃ val, Laid user vm.config.description val)
    (hfresh : ¬HoldsOf B SL holder vm.config) (hr : Run (world D vmid proc) (begin B SL SJ vmid proc vm) s)
    {acq : Acquisition} (hreturned : s.left i = .pure (.ok (some acq))) :
    acq.lease = holder.lease ∧ ∃ after w before, s.log = after ++ w :: before ∧ w.proc = i ∧
      readLease B SL w.after.config = .ok (some holder.lease) ∧
      ((∀ e ∈ after, ¬Ends proc holder e) → s.shared.clock < holder.lease.expiresAt →
        readLease B SL s.shared.config = .ok (some holder.lease) ∧
        ∀ e ∈ after, readLease B SL e.after.config = .ok (some holder.lease) ∧ Kept proc i e ∧
          ∀ holder' node form v, proc e.proc = .acquire holder' → e.proc ≠ i →
            e.event ≠ ⟨.put (.config node vmid) form, .ok v⟩) := by
  have hpost := hr.wp (fun i => (proc i).guarded) i
  rw [hreturned] at hpost
  obtain ⟨hlease, node, form, v, hv⟩ := hpost holder hi acq rfl
  refine ⟨hlease, ?_⟩
  have hg := Good.run hvm hlaid hr
  rcases phase hi once hvm hlaid hfresh hr with hn | ⟨after, w, before, hw⟩
  · obtain ⟨e, he, hproc, hevent⟩ := mem_own.mp hv
    have hread := hg.wrote e he holder (hproc ▸ hi) node form v hevent
    exact absurd ⟨holder.lease, hread, rfl, rfl⟩ (hn.2 e he).2
  · refine ⟨after, w, before, hw.log, hw.writer, hw.lease, fun hno hclock => ?_⟩
    obtain ⟨hnow, hall⟩ := hw.holds hno hclock
    refine ⟨hnow, fun e he => ⟨(hall e he).1, (hall e he).2, ?_⟩⟩
    intro holder' node form v hproc hne hevent
    have hread := hg.wrote e (hw.log ▸ List.mem_append_left _ he) holder' hproc node form v hevent
    rw [(hall e he).1] at hread
    obtain hsame : holder.lease = holder'.lease := by injection hread with h; injection h
    exact hne (once e.proc holder' hproc (congrArg Lease.inst hsame).symm (congrArg Lease.job hsame).symm)

end Job

end Runs

/-! ## Proxmox without failures -/

section Respond

variable (D : Digests) (vmid : Nat)

def accepts (c : VmConfig) (form : Form) : Bool :=
  form.all fun f => f.1 ≠ "digest" || (c)["digest".toList]? = some f.2

/-- The answers of a Proxmox that never fails. -/
def respond (s : Vm) : (q : Call) → q.Answer × Vm
  | .rounds => ((0 : Nat), s)
  | .running .. => (true, s)
  | .probe _ => (.ok none, s)
  | .uuid => ([], s)
  | .get .clusterResources _ =>
    (.ok (.arr [.obj [("node", .str "pve1"), ("type", .str "qemu"), ("vmid", .int vmid)]]), s)
  | .get (.config ..) _ => (.ok (configJson s.config), s)
  | .get .. => (.ok (.arr []), s)
  | .put (.config _ v) form =>
    if v = vmid ∧ accepts s.config form = true then
      (.ok .null, { s with config := D.stamp (form.foldl setField s.config) })
    else (.error .unauthorized, s)
  | .put .. | .post .. | .delete .. => (.error .unauthorized, s)

theorem respond_answers (s : Vm) (q : Call) :
    Answers D vmid s q (respond D vmid s q).1 (respond D vmid s q).2 := by
  cases q with
  | put path form =>
    cases path with
    | config node v =>
      unfold respond
      dsimp only
      split
      next h =>
        refine Or.inr ⟨h.1, ?_, rfl⟩
        intro d hd
        have := List.all_eq_true.mp h.2 _ hd
        simpa [-String.reduceToList] using this
      · exact Or.inl ⟨rfl, fun _ => ⟨_, rfl⟩⟩
    | _ => rfl
  | get path query =>
    cases path with
    | config node v =>
      refine ⟨rfl, fun _ value hv => ⟨_, (Except.ok.inj hv).symm, parseConfig_toList s.config⟩⟩
    | pending node v =>
      refine ⟨rfl, fun _ entries hv => ?_⟩
      cases hv
      simp
    | _ => rfl
  | _ => rfl

theorem respond_clock (s : Vm) (q : Call) : (respond D vmid s q).2.clock = s.clock := by
  unfold respond
  split
  all_goals first
    | rfl
    | (split <;> rfl)

variable {D vmid}

theorem plays_call {c : Call} {s : Vm} :
    Plays (respond D vmid) (Op.call c) s (respond D vmid s c).1 (respond D vmid s c).2 := Plays.call c

theorem plays_vmConfig {node : Text} {s : Vm} : Plays (respond D vmid) (vmConfig node vmid) s s.config s := by
  have hget : Plays (respond D vmid) (get (.config node vmid) []) s (configJson s.config) s :=
    Plays.bind plays_call (Plays.pure _)
  exact Plays.bind hget (congrArg (fun c => (Except.ok c, s)) (parseConfig_toList s.config))

theorem plays_effectiveConfig {node : Text} {s : Vm} :
    Plays (respond D vmid) (effectiveConfig node vmid) s s.config s := by
  have hget : Plays (respond D vmid) (get (.pending node vmid) []) s (.arr []) s :=
    Plays.bind plays_call (Plays.pure _)
  exact Plays.bind plays_vmConfig (Plays.bind hget (Plays.pure _))

theorem plays_setVmConfig {node : Text} {s : Vm} (hs : D.Stamped s.config) (values : Form)
    (hvalues : ∀ f ∈ values, f.1 ≠ "digest") :
    Plays (respond D vmid) (setVmConfig node vmid values s.config["digest".toList]?) s ()
      { s with
        config := D.stamp ((configForm values s.config["digest".toList]?).foldl setField s.config) } := by
  have haccepts : accepts s.config (configForm values s.config["digest".toList]?) = true := by
    rw [configForm_stamped hs, accepts, List.all_append, Bool.and_eq_true]
    constructor
    · rw [List.all_eq_true]
      intro f hf
      simpa [-String.reduceToList] using Or.inl (hvalues f hf)
    · rw [List.all_eq_true]
      intro f hf
      rw [List.mem_singleton.mp hf, Bool.or_eq_true]
      exact Or.inr (decide_eq_true hs.digest)
  have hput : Plays (respond D vmid) (put (.config node vmid)
      (configForm values s.config["digest".toList]?)) s .null
      { s with
        config := D.stamp ((configForm values s.config["digest".toList]?).foldl setField s.config) } := by
    have hcall : respond D vmid s (.put (.config node vmid) (configForm values s.config["digest".toList]?)) =
        (.ok .null,
          { s with
            config := D.stamp ((configForm values s.config["digest".toList]?).foldl setField s.config) }) :=
      if_pos ⟨rfl, haccepts⟩
    refine Plays.bind plays_call ?_
    rw [hcall]
    exact Plays.pure _
  exact Plays.bind (Plays.bind plays_call hput) (Plays.pure _)

theorem written_description {s : Vm} (hs : D.Stamped s.config) {values : Form} {d : Text}
    (hvalues : values = [(("description" : Text), d)] ∨ values = describeForm d) :
    (D.stamp ((configForm values s.config["digest".toList]?).foldl setField s.config)).description = d := by
  rw [configForm_stamped hs, D.description_stamp]
  exact description_written hvalues s.config _

/-- An attempt on a VM that is free writes its lease. -/
theorem plays_tryAcquire {B : Base64} {SL : Serde Lease} {node : Text} {s : Vm} {holder : Holder}
    {lease : Option Lease} {d : Text} (hs : D.Stamped s.config) (hlease : readLease B SL s.config = .ok lease)
    (hfree : ∀ l, lease = some l → l.inst ≠ holder.inst ∧ l.expiresAt ≤ holder.now)
    (hd : Lease.descriptionWith B SL s.config.description (some holder.lease) = .ok d)
    (hfits : d.length ≤ Lease.descriptionMax) : ∃ c', D.Stamped c' ∧ c'.description = d ∧
      Plays (respond D vmid) (Lease.tryAcquire B SL node vmid holder) s (s.config, .ok ())
        { s with config := c' } := by
  have hcheck : Plays (respond D vmid) (Lease.checkNow vmid lease holder) s () s := by
    cases lease with
    | none => exact Plays.pure _
    | some l =>
      obtain ⟨hinst, hexpired⟩ := hfree l rfl
      unfold Lease.checkNow
      dsimp only
      have hok : Lease.check vmid (some l) holder (fun _ => false) = .ok () := if_pos (Or.inr hexpired)
      rw [if_neg fun h => hinst h.1, hok]
      exact Plays.pure _
  refine ⟨_, D.stamped_stamp _, written_description hs (Or.inl rfl), ?_⟩
  refine Plays.bind plays_vmConfig ?_
  rw [hlease]
  refine Plays.bind (Plays.pure _) (Plays.bind hcheck ?_)
  rw [hd]
  refine Plays.bind (Plays.pure _) (Plays.guard (not_lt.mpr hfits) ?_)
  refine Plays.bind (Plays.attempt (plays_setVmConfig hs _ ?_)) (Plays.pure _)
  intro f hf
  rw [List.mem_singleton.mp hf]
  exact (by decide : ("description" : Text) ≠ "digest")

/-- A journal write succeeds. -/
theorem plays_writeJournal {B : Base64} {SJ : Serde Journal} {node : Text} {s : Vm} {entry : Option Journal}
    {d : Text} (hs : D.Stamped s.config)
    (hd : Journal.descriptionWith B SJ s.config.description entry = .ok d)
    (hfits : d.length ≤ Journal.descriptionMax) : ∃ c', c'.description = d ∧
      Plays (respond D vmid) (writeJournal B SJ node vmid s.config entry) s c' { s with config := c' } := by
  refine ⟨_, written_description hs (Or.inr rfl), ?_⟩
  unfold writeJournal
  rw [hd]
  refine Plays.bind (Plays.pure _) (Plays.guard (not_lt.mpr hfits) ?_)
  refine Plays.bind (plays_setVmConfig hs _ ?_) plays_vmConfig
  intro f hf
  unfold describeForm at hf
  split at hf
  · rw [List.mem_singleton.mp hf]
    decide
  · rw [List.mem_singleton.mp hf]
    exact (by decide : ("description" : Text) ≠ "digest")

end Respond

/-! ## Concrete runs -/

namespace Sample

theorem configJson_injective : Function.Injective configJson := by
  intro a b h
  exact Journal.restore_injective (Json.obj.inj h)

theorem configJson_whole (c : VmConfig) : (configJson c).Whole := by
  refine .obj ?_
  intro e he
  obtain ⟨a, -, rfl⟩ := List.mem_map.mp he
  exact .str _

/-- A digest that shows the whole configuration. -/
def digests : Digests where
  of c := 'd' :: Base64.standard.encode (configJson c).render.utf8
  injective a b h := by
    have hcode := (List.cons.inj h).2
    have hbytes := Base64.standard.decode_encode (configJson a).render.utf8
    rw [hcode, Base64.standard.decode_encode, Option.some.injEq] at hbytes
    exact (configJson_injective (Json.render_inj (configJson_whole _) (configJson_whole _)
      (Text.utf8_inj hbytes))).symm
  trimmed c := by
    apply Text.trim_eq_self
    intro ch hch
    rcases List.mem_cons.mp hch with rfl | hch
    · decide
    · exact (Base64.standard.clean _ ch hch).2
  nonempty c := by simp

def first : Holder := ⟨"a", "1", "workspace.refresh", 0, 7200⟩

def second : Holder := ⟨"b", "2", "workspace.refresh", 7200, 7200⟩

/-- A VM without a description. -/
def vm : Vm := ⟨digests.stamp ∅, 0⟩

def both : Bool → Proc
  | false => .acquire first
  | true => .acquire second

/-- It asks for the VM after an hour. -/
def rival : Holder := ⟨"b", "2", "workspace.refresh", 3600, 7200⟩

def contended : Bool → Proc
  | false => .acquire first
  | true => .acquire rival

theorem nodeOf_plays (s : Vm) : Plays (respond digests 100) (nodeOf 100) s (some "pve1".toList) s := by
  unfold Plays
  rfl

theorem allowed {ι : Type} (proc : ι → Proc) (i : ι) (s : Vm) (q : Call) (h : (proc i).Started s) :
    ((world digests 100 proc).env i).next s q (respond digests 100 s q).1 (respond digests 100 s q).2 ∧
      (proc i).Started (respond digests 100 s q).2 := by
  refine ⟨⟨h, respond_answers digests 100 s q⟩, ?_⟩
  unfold Proc.Started at h ⊢
  cases hp : proc i with
  | acquire holder =>
    rw [hp] at h
    rw [respond_clock]
    exact h
  | _ => trivial

/-- Every answer so far was that of a Proxmox without failures. -/
def Fair {ι : Type} (s : LeaseState ι) : Prop :=
  ∀ e ∈ s.log, e.event.r = (respond digests 100 e.before e.event.q).1

theorem Fair.not_ends {ι : Type} {s : LeaseState ι} (h : Fair s) {proc : ι → Proc} {holder : Holder}
    (hproc : ∀ i inst job, proc i ≠ .release inst job) : ∀ e ∈ s.log, ¬Ends proc holder e := by
  rintro e he (hrelease | hrunning)
  · exact hproc _ _ _ hrelease
  · have := h e he
    rw [hrunning] at this
    cases this

section Steps

variable {ι : Type} [DecidableEq ι] {proc : ι → Proc} {s : LeaseState ι} {i : ι} {holder : Holder}

/-- The read that ends an `acquire`. -/
def lastRead (before : VmConfig) (holder : Holder) : Op (Option Acquisition) := do
  return some ⟨100, before, ← vmConfig "pve1" 100, holder.lease⟩

/-- An `acquire` up to its last read. -/
theorem writes_lease (hi : proc i = .acquire holder) (hfair : Fair s)
    (hleft : s.left i = (Lease.acquire Base64.standard Lease.serde 100 holder).run)
    (hnow : holder.now ≤ s.shared.clock) (hs : digests.Stamped s.shared.config) {lease : Option Lease}
    (hlease : readLease Base64.standard Lease.serde s.shared.config = .ok lease)
    (hfree : ∀ l, lease = some l → l.inst ≠ holder.inst ∧ l.expiresAt ≤ holder.now) {d : Text}
    (hd : Lease.descriptionWith Base64.standard Lease.serde s.shared.config.description
      (some holder.lease) = .ok d)
    (hfits : d.length ≤ Lease.descriptionMax) : ∃ s' : LeaseState ι,
      Run (world digests 100 proc) s s' ∧ Fair s' ∧
      digests.Stamped s'.shared.config ∧ s'.shared.config.description = d ∧ s'.shared.clock = s.shared.clock ∧
      (∀ j ≠ i, s'.left j = s.left j) ∧ s'.left i = (lastRead s.shared.config holder).run := by
  have hstarted : (proc i).Started s.shared := by
    rw [hi]
    exact hnow
  obtain ⟨s₁, hrun₁, hshared₁, hother₁, hleft₁, hlog₁⟩ :=
    Run.of_plays (allowed proc i) hleft hstarted (nodeOf_plays s.shared)
  obtain ⟨c', hc', hdesc, hplays⟩ := plays_tryAcquire (D := digests) hs hlease hfree hd hfits
  rw [← hshared₁] at hplays hstarted
  obtain ⟨s₂, hrun₂, hshared₂, hother₂, hleft₂, hlog₂⟩ := Run.of_plays (allowed proc i) hleft₁ hstarted hplays
  refine ⟨s₂, hrun₁.trans hrun₂, ?_, ?_, ?_, ?_, ?_, ?_⟩
  · intro e he
    rcases hlog₂ e he with he | he
    · rcases hlog₁ e he with he | he
      · exact hfair e he
      · exact he.2
    · exact he.2
  · rw [hshared₂]
    exact hc'
  · rw [hshared₂]
    exact hdesc
  · rw [hshared₂, hshared₁]
  · exact fun j hj => (hother₂ j hj).trans (hother₁ j hj)
  · rw [hleft₂, hshared₁]
    rfl

theorem returns {before : VmConfig} (hi : proc i = .acquire holder) (hfair : Fair s)
    (hleft : s.left i = (lastRead before holder).run) (hnow : holder.now ≤ s.shared.clock) :
    ∃ s' : LeaseState ι, Run (world digests 100 proc) s s' ∧ Fair s' ∧ s'.shared = s.shared ∧
      (∀ j ≠ i, s'.left j = s.left j) ∧
      s'.left i = .pure (.ok (some ⟨100, before, s.shared.config, holder.lease⟩)) := by
  have hstarted : (proc i).Started s.shared := by
    rw [hi]
    exact hnow
  obtain ⟨s₁, hrun, hshared, hother, hleft', hlog⟩ :=
    Run.of_plays (allowed proc i) hleft hstarted plays_vmConfig
  refine ⟨s₁, hrun, ?_, hshared, hother, hleft'⟩
  intro e he
  rcases hlog e he with he | he
  · exact hfair e he
  · exact he.2

/-- An `acquire` of another instance is refused while a lease holds. -/
theorem refused (hi : proc i = .acquire holder) (hfair : Fair s)
    (hleft : s.left i = (Lease.acquire Base64.standard Lease.serde 100 holder).run)
    (hnow : holder.now ≤ s.shared.clock) {lease : Lease}
    (hlease : readLease Base64.standard Lease.serde s.shared.config = .ok (some lease))
    (hinst : lease.inst ≠ holder.inst) (hheld : holder.now < lease.expiresAt) :
    ∃ s' : LeaseState ι, Run (world digests 100 proc) s s' ∧ Fair s' ∧ s'.shared = s.shared ∧
      (∀ j ≠ i, s'.left j = s.left j) ∧ s'.left i = .pure (.error (lease.busy 100 holder.now)) := by
  have hstarted : (proc i).Started s.shared := by
    rw [hi]
    exact hnow
  obtain ⟨s₁, hrun₁, hshared₁, hother₁, hleft₁, hlog₁⟩ :=
    Run.of_plays (allowed proc i) hleft hstarted (nodeOf_plays s.shared)
  have hcheck : Breaks (respond digests 100) (Lease.checkNow 100 (some lease) holder) s.shared
      (lease.busy 100 holder.now) s.shared := by
    have hbusy : Lease.check 100 (some lease) holder (fun _ => false) = .error (lease.busy 100 holder.now) :=
      if_neg (by rintro (⟨hown, -⟩ | hexpired)
                 · exact hinst hown
                 · exact absurd hheld (not_lt.mpr hexpired))
    unfold Lease.checkNow
    dsimp only
    rw [if_neg fun h => hinst h.1, hbusy]
    rfl
  have htry : Breaks (respond digests 100) (Lease.tryAcquire Base64.standard Lease.serde
      "pve1" 100 holder) s₁.shared
      (lease.busy 100 holder.now) s₁.shared := by
    rw [hshared₁]
    refine Breaks.after plays_vmConfig ?_
    rw [hlease]
    exact Breaks.after (Plays.pure _) (Breaks.bind hcheck)
  rw [← hshared₁] at hstarted
  obtain ⟨s₂, hrun₂, hshared₂, hother₂, hleft₂, hlog₂⟩ := Run.of_breaks (allowed proc i) hleft₁ hstarted htry
  refine ⟨s₂, hrun₁.trans hrun₂, ?_, hshared₂.trans hshared₁,
    fun j hj => (hother₂ j hj).trans (hother₁ j hj), hleft₂⟩
  intro e he
  rcases hlog₂ e he with he | he
  · rcases hlog₁ e he with he | he
    · exact hfair e he
    · exact he.2
  · exact he.2

end Steps

/-- Both leases fit, one after the other. -/
theorem leases_fit :
    ((Lease.descriptionWith Base64.standard Lease.serde [] (some first.lease)).toOption.any fun d =>
      d.length ≤ Lease.descriptionMax && (Lease.descriptionWith Base64.standard Lease.serde d
        (some second.lease)).toOption.any fun d' => d'.length ≤ Lease.descriptionMax) = true := by
  decide +kernel

theorem stamped_description (c : VmConfig) : (digests.stamp c).description = c.description :=
  digests.description_stamp c

section First

variable {proc : Bool → Proc} {other : Holder} (hfirst : proc false = .acquire first)
  (hother : proc true = .acquire other)

include hfirst hother

/-- The lease of the first job was written, and its `acquire` has not returned. -/
theorem first_written : ∃ (s : LeaseState Bool) (d : Text),
    Run (world digests 100 proc) (begin Base64.standard Lease.serde Journal.serde 100 proc vm) s ∧ Fair s ∧
      digests.Stamped s.shared.config ∧ s.shared.config.description = d ∧ s.shared.clock = 0 ∧
      Lease.descriptionWith Base64.standard Lease.serde [] (some first.lease) = .ok d ∧
      readLease Base64.standard Lease.serde s.shared.config = .ok (some first.lease) ∧
      s.left true = (Lease.acquire Base64.standard Lease.serde 100 other).run ∧
      s.left false = (lastRead vm.config first).run := by
  have hlaid : Laid [] [] (payloads Base64.standard Lease.serde Journal.serde none none) := by
    rw [payloads_none]
    exact Laid.init rfl
  have hnone : vm.config.description = [] := stamped_description ∅
  obtain ⟨d, hd, hl⟩ := BlockOp.apply_laid hlaid (.setLease first.lease)
  have hd : Lease.descriptionWith Base64.standard Lease.serde [] (some first.lease) = .ok d := hd
  have hfits := leases_fit
  rw [hd] at hfits
  have hfits : d.length ≤ Lease.descriptionMax := of_decide_eq_true (Bool.and_eq_true_iff.mp hfits).1
  have hlease : readLease Base64.standard Lease.serde vm.config = .ok none :=
    readLease_of_laid (hnone ▸ hlaid) rfl
  have hfair : Fair (begin Base64.standard Lease.serde Journal.serde 100 proc vm) :=
    fun e he => absurd he List.not_mem_nil
  have hbegin : ∀ {i : Bool} {holder : Holder}, proc i = .acquire holder →
      (begin Base64.standard Lease.serde Journal.serde 100 proc vm).left i =
        (Lease.acquire Base64.standard Lease.serde 100 holder).run :=
    fun hi => congrArg (fun p => Proc.prog Base64.standard Lease.serde Journal.serde 100 p) hi
  obtain ⟨s, hrun, hfair, hst, hdesc, hclock, hrest, hleft⟩ :=
    writes_lease hfirst hfair (hbegin hfirst) (le_refl 0)
    (digests.stamped_stamp ∅) hlease (by rintro l ⟨⟩) (hnone ▸ hd) hfits
  exact ⟨s, d, hrun, hfair, hst, hdesc, hclock, hd, readLease_of_laid (hdesc ▸ hl) rfl,
    (hrest true (by decide)).trans (hbegin hother), hleft⟩

/-- The first `acquire` returns, and its lease is there. -/
theorem first_returned : ∃ (s : LeaseState Bool) (acq : Acquisition),
    Run (world digests 100 proc) (begin Base64.standard Lease.serde Journal.serde 100 proc vm) s ∧ Fair s ∧
      digests.Stamped s.shared.config ∧ s.shared.clock = 0 ∧
      readLease Base64.standard Lease.serde s.shared.config = .ok (some first.lease) ∧
      s.left true = (Lease.acquire Base64.standard Lease.serde 100 other).run ∧
        s.left false = .pure (.ok (some acq)) := by
  obtain ⟨s, d, hrun, hfair, hst, -, hclock, -, hlease, hwaits, hleft⟩ := first_written hfirst hother
  obtain ⟨s', hrun', hfair', hshared, hrest, hreturned⟩ := returns hfirst hfair hleft (Nat.zero_le _)
  rw [← hshared] at hst hclock hlease
  exact ⟨s', _, hrun.trans hrun', hfair', hst, hclock, hlease,
    (hrest true (by decide)).trans hwaits, hreturned⟩

end First

/-- While the first lease holds, the other instance is refused. -/
theorem rival_refused : ∃ (s s' : LeaseState Bool) (acq : Acquisition),
    Run (world digests 100 contended) (begin Base64.standard Lease.serde Journal.serde 100 contended vm) s ∧
      s.left false = .pure (.ok (some acq)) ∧
        s.left true = (Lease.acquire Base64.standard Lease.serde 100 rival).run ∧
      Run (world digests 100 contended) s s' ∧ Fair s' ∧ s'.left false = .pure (.ok (some acq)) ∧
      s'.left true = .pure (.error (first.lease.busy 100 3600)) ∧ s'.shared.clock = 3600 := by
  have hrival : contended true = .acquire rival := rfl
  obtain ⟨s, acq, hrun, hfair, hst, hclock, hlease, hwaits, hreturned⟩ :=
    first_returned (show contended false = .acquire first from rfl) hrival
  have hidle : Step (world digests 100 contended) s { s with shared := ⟨s.shared.config, 3600⟩ } :=
    Step.idle ⟨by rw [hclock]; exact Nat.zero_le _, hst, rfl⟩
  obtain ⟨s', hrun', hfair', hshared, hrest, hrefused⟩ := refused hrival
    (s := ⟨⟨s.shared.config, 3600⟩, s.left, s.log⟩) hfair hwaits (le_refl 3600) hlease (by decide) (by decide)
  refine ⟨s, s', acq, hrun, hreturned, hwaits, .head hidle hrun', hfair', ?_, hrefused, by rw [hshared]⟩
  exact (hrest false (by decide)).trans hreturned

/-- The first lease expires, the second job gets the VM, and only then the
first `acquire` returns. -/
theorem first_returns_late : ∃ (s s' : LeaseState Bool) (acq acq' : Acquisition),
    Run (world digests 100 both) (begin Base64.standard Lease.serde Journal.serde 100 both vm) s ∧
      Run (world digests 100 both) s s' ∧ Fair s' ∧ s.left true = .pure (.ok (some acq)) ∧
      s'.shared.clock < second.lease.expiresAt ∧ (∀ r, s.left false ≠ .pure r) ∧
      s'.left false = .pure (.ok (some acq')) := by
  obtain ⟨s, d, hrun, hfair, hst, hdesc, hclock, hd, hlease, hsecond, hleft⟩ :=
    first_written (show both false = .acquire first from rfl) (show both true = .acquire second from rfl)
  have hfits := leases_fit
  obtain ⟨d', hd'⟩ : ∃ d', Lease.descriptionWith Base64.standard Lease.serde d (some second.lease) = .ok d' ∧
      d'.length ≤ Lease.descriptionMax := by
    rw [hd] at hfits
    obtain ⟨d', hd', hl⟩ := (Option.any_eq_true _ _).mp (Bool.and_eq_true_iff.mp hfits).2
    exact ⟨d', Except.ok_of_toOption hd', of_decide_eq_true hl⟩
  -- two hours pass
  have hidle : Step (world digests 100 both) s { s with shared := ⟨s.shared.config, 7200⟩ } :=
    Step.idle ⟨by rw [hclock]; exact Nat.zero_le _, hst, rfl⟩
  have hproc : both true = .acquire second := rfl
  have hproc' : both false = .acquire first := rfl
  obtain ⟨s₁, hrun₁, hfair₁, hst₁, -, hclock₁, hother₁, hleft₁⟩ := writes_lease hproc
    (s := ⟨⟨s.shared.config, 7200⟩, s.left, s.log⟩) hfair hsecond (le_refl 7200) hst hlease
    (by rintro l ⟨⟩; decide) (hdesc ▸ hd'.1) hd'.2
  obtain ⟨s₂, hrun₂, hfair₂, hshared₂, hother₂, hreturned⟩ :=
    returns hproc hfair₁ hleft₁ (by rw [hclock₁]; exact le_refl 7200)
  have hleft₂ : s₂.left false = (lastRead vm.config first).run := by
    rw [hother₂ false (by decide), hother₁ false (by decide)]
    exact hleft
  obtain ⟨s₃, hrun₃, hfair₃, hshared₃, -, hlate⟩ := returns hproc' hfair₂ hleft₂ (Nat.zero_le _)
  refine ⟨s₂, s₃, _, _, (hrun.tail hidle).trans (hrun₁.trans hrun₂), hrun₃, hfair₃, hreturned, ?_, ?_, hlate⟩
  · rw [hshared₃, hshared₂, hclock₁]
    exact (by decide : 7200 < second.lease.expiresAt)
  · rintro r hr
    rw [hleft₂] at hr
    cases hr

/-- A description in which a journal block stands between the parts of a
lease's start marker. -/
noncomputable def hidden : Text :=
  "<!-- homestack-" ++ ("<!-- homestack-journal:  -->" ++ ("lease: " ++
    (Codec.encode Base64.standard Lease.serde second.lease ++ " -->")))

noncomputable def firstBlock : Text :=
  Lease.leaseStart ++ (Codec.encode Base64.standard Lease.serde first.lease ++ Lease.leaseEnd)

/-- What is left of it when the journal is removed. -/
noncomputable def shown : Text :=
  Lease.leaseStart ++ (Codec.encode Base64.standard Lease.serde second.lease ++
    (Lease.leaseEnd ++ '\n' :: firstBlock))

theorem hidden_reads :
    (Description.find hidden Lease.leaseStart Lease.leaseEnd Lease.label).toOption = some none ∧
    (Lease.descriptionWith Base64.standard Lease.serde hidden (some first.lease)).toOption =
      some (hidden ++ '\n' :: firstBlock) ∧
    (Journal.descriptionWith Base64.standard Journal.serde (hidden ++ '\n' :: firstBlock) none).toOption =
      some shown ∧
    (Description.find shown Lease.leaseStart Lease.leaseEnd Lease.label).toOption =
      some (some ⟨[], Codec.encode Base64.standard Lease.serde second.lease, '\n' :: firstBlock⟩) ∧
    (hidden ++ '\n' :: firstBlock).length ≤ Lease.descriptionMax ∧ shown.length ≤ Journal.descriptionMax := by
  decide +kernel

/-- One job, and its write that removes the journal. -/
def job : Bool → Proc
  | false => .acquire first
  | true => .journal "pve1" none

noncomputable def hiddenVm : Vm := ⟨digests.stamp (describedBy hidden), 0⟩

/-- The job holds the VM, it removes the journal, and the lease that is read is
not its own. -/
theorem lease_hidden : ∃ (s : LeaseState Bool) (acq : Acquisition),
    Run (world digests 100 job) (begin Base64.standard Lease.serde Journal.serde 100 job hiddenVm) s ∧
      Fair s ∧
      s.left false = .pure (.ok (some acq)) ∧ s.shared.clock < first.lease.expiresAt ∧
      readLease Base64.standard Lease.serde s.shared.config = .ok (some second.lease) := by
  obtain ⟨hfind, hleased, hremoved, hfound, hfits, hshown⟩ := hidden_reads
  have hdesc : hiddenVm.config.description = hidden := by
    rw [hiddenVm, stamped_description, describedBy_description]
  have hnone : readLease Base64.standard Lease.serde hiddenVm.config = .ok none := by
    unfold readLease
    rw [hdesc, Except.ok_of_toOption hfind]
    rfl
  have hfair : Fair (begin Base64.standard Lease.serde Journal.serde 100 job hiddenVm) :=
    fun e he => absurd he List.not_mem_nil
  have hproc : job false = .acquire first := rfl
  have hleased : Lease.descriptionWith Base64.standard Lease.serde hiddenVm.config.description
      (some first.lease) =
      .ok (hidden ++ '\n' :: firstBlock) := by
    rw [hdesc]
    exact Except.ok_of_toOption hleased
  obtain ⟨s₁, hrun₁, hfair₁, hst₁, hdesc₁, hclock₁, hother₁, hleft₁⟩ :=
    writes_lease hproc hfair rfl (le_refl 0)
    (digests.stamped_stamp _) hnone (by rintro l ⟨⟩) hleased hfits
  obtain ⟨s₂, hrun₂, hfair₂, hshared₂, hother₂, hreturned⟩ := returns hproc hfair₁ hleft₁ (Nat.zero_le _)
  have hleft₂ : s₂.left true = (job true).prog Base64.standard Lease.serde Journal.serde 100 := by
    rw [hother₂ true (by decide), hother₁ true (by decide)]
    rfl
  obtain ⟨s₃, hrun₃, hshared₃, hother₃, hleft₃, hlog₃⟩ :=
    Run.of_plays (allowed job true) hleft₂ trivial plays_effectiveConfig
  have hdesc₃ : s₃.shared.config.description = hidden ++ '\n' :: firstBlock := by
    rw [hshared₃, hshared₂]
    exact hdesc₁
  have hst₃ : digests.Stamped s₃.shared.config := by
    rw [hshared₃, hshared₂]
    exact hst₁
  have hremoved : Journal.descriptionWith Base64.standard Journal.serde s₃.shared.config.description none =
      .ok shown := by
    rw [hdesc₃]
    exact Except.ok_of_toOption hremoved
  obtain ⟨c', hdesc₄, hplays⟩ := plays_writeJournal hst₃ hremoved hshown
  rw [← hshared₃] at hleft₃
  obtain ⟨s₄, hrun₄, hshared₄, hother₄, -, hlog₄⟩ := Run.of_plays (allowed job true) hleft₃ trivial hplays
  have hleft₄ := (hother₄ false (by decide)).trans ((hother₃ false (by decide)).trans hreturned)
  refine ⟨s₄, _, hrun₁.trans (hrun₂.trans (hrun₃.trans hrun₄)), ?_, hleft₄, ?_, ?_⟩
  · intro e he
    rcases hlog₄ e he with he | he
    · rcases hlog₃ e he with he | he
      · exact hfair₂ e he
      · exact he.2
    · exact he.2
  · rw [hshared₄, hshared₃, hshared₂, hclock₁]
    exact (by decide : 0 < first.lease.expiresAt)
  · rw [hshared₄]
    have hfind := Except.ok_of_toOption hfound
    rw [← hdesc₄] at hfind
    exact readLease_of_find hfind rfl

end Sample

/-- A run in which the `acquire` of another instance is refused, and the lease is still there. -/
theorem lease_excludes_others_first : ∃ (s s' : LeaseState Bool) (acq : Acquisition),
    Run (world Sample.digests 100 Sample.contended)
      (begin Base64.standard Lease.serde Journal.serde 100 Sample.contended Sample.vm) s ∧
    s.left false = .pure (.ok (some acq)) ∧
    s.left true = (Lease.acquire Base64.standard Lease.serde 100 Sample.rival).run ∧
    Run (world Sample.digests 100 Sample.contended) s s' ∧
    s'.left true = .pure (.error (Sample.first.lease.busy 100 3600)) ∧
    readLease Base64.standard Lease.serde s'.shared.config = .ok (some Sample.first.lease) := by
  obtain ⟨s, s', acq, hrun, hreturned, hwaits, hrun', hfair, hstill, hrefused, hclock⟩ := Sample.rival_refused
  have hempty : Sample.vm.config.description = [] := Sample.stamped_description ∅
  have hlaid : Laid [] Sample.vm.config.description
      (payloads Base64.standard Lease.serde Journal.serde none none) := by
    rw [payloads_none, hempty]
    exact Laid.init rfl
  have hnone : readLease Base64.standard Lease.serde Sample.vm.config = .ok none :=
    readLease_of_laid hlaid rfl
  have hfirst : Sample.contended false = .acquire Sample.first := rfl
  obtain ⟨-, after, w, before, hlog, -, -, hheld⟩ := lease_excludes_others hfirst
    (by rintro (_ | _) holder ⟨⟩ hinst hjob
        · rfl
        · exact absurd hinst (by decide))
    (Sample.digests.stamped_stamp ∅) ⟨_, hlaid⟩ (not_holdsOf hnone (by rintro l ⟨⟩)) (hrun.trans hrun') hstill
  refine ⟨s, s', acq, hrun, hreturned, hwaits, hrun', hrefused, (hheld ?_ ?_).1⟩
  · intro e he
    exact hfair.not_ends (by rintro (_ | _) inst job ⟨⟩) e (hlog ▸ List.mem_append_left _ he)
  · rw [hclock]
    decide

/-- An `acquire` of another instance returns while a lease holds, and the
journal's removal can show another lease than the job's. -/
theorem lease_returns_late_or_hides :
    (∃ (s s' : LeaseState Bool) (acq acq' : Acquisition),
      Run (world Sample.digests 100 Sample.both)
        (begin Base64.standard Lease.serde Journal.serde 100 Sample.both Sample.vm) s ∧
      Run (world Sample.digests 100 Sample.both) s s' ∧ s.left true = .pure (.ok (some acq)) ∧
      (∀ e ∈ s'.log, ¬Ends Sample.both Sample.second e) ∧ s'.shared.clock < Sample.second.lease.expiresAt ∧
      (∀ r, s.left false ≠ .pure r) ∧ s'.left false = .pure (.ok (some acq')) ∧
      Sample.first.inst ≠ Sample.second.inst) ∧
    ∃ (s : LeaseState Bool) (acq : Acquisition),
      Run (world Sample.digests 100 Sample.job)
        (begin Base64.standard Lease.serde Journal.serde 100 Sample.job Sample.hiddenVm) s ∧
      s.left false = .pure (.ok (some acq)) ∧ (∀ e ∈ s.log, ¬Ends Sample.job Sample.first e) ∧
      s.shared.clock < Sample.first.lease.expiresAt ∧
      readLease Base64.standard Lease.serde s.shared.config ≠ .ok (some Sample.first.lease) := by
  constructor
  · obtain ⟨s, s', acq, acq', hrun, hrun', hfair, hreturned, hclock, hleft, hlate⟩ :=
      Sample.first_returns_late
    exact ⟨s, s', acq, acq', hrun, hrun', hreturned, hfair.not_ends (by rintro (_ | _) inst job ⟨⟩),
      hclock, hleft,
      hlate, by decide⟩
  · obtain ⟨s, acq, hrun, hfair, hreturned, hclock, hread⟩ := Sample.lease_hidden
    refine ⟨s, acq, hrun, hreturned, hfair.not_ends (by rintro (_ | _) inst job ⟨⟩), hclock, ?_⟩
    rw [hread]
    intro h
    injection h with h
    injection h with h
    exact absurd h (by decide)

end HomeStack.Leasing
