import HomeStack.Blocks
import HomeStack.LeaseCalls
import HomeStack.Lib.Pool

/-! Leases between server instances: any number of `acquire`, `release` and
journal writes run interleaved on one VM. Proxmox refuses a change whose digest
is not the configuration's, and it may lose any answer. -/

namespace HomeStack.Leasing

open Prog Op Pool

/-- The digest Proxmox shows with a configuration, made from the rest of it. -/
structure Digests where
  of : VmConfig → Text
  injective : Function.Injective of
  trimmed : ∀ c, Text.trim (of c) = of c
  nonempty : ∀ c, of c ≠ []

namespace Digests

variable (D : Digests)

/-- The configuration as it is shown. -/
def stamp (c : VmConfig) : VmConfig :=
  (c.erase "digest").insert "digest" (D.of (c.erase "digest"))

/-- The digest shown is that of the configuration. -/
def Stamped (c : VmConfig) : Prop := c = D.stamp c

end Digests

section Digest

variable {D : Digests} {c : VmConfig}

theorem Digests.getElem?_stamp (c : VmConfig) {key : Text} (hne : key ≠ "digest") :
    (D.stamp c)[key]? = (c)[key]? := by
  unfold Digests.stamp
  rw [Std.ExtTreeMap.getElem?_insert, if_neg (by simpa using hne.symm), Std.ExtTreeMap.getElem?_erase,
    if_neg (by simpa using hne.symm)]

theorem Digests.description_stamp (c : VmConfig) : (D.stamp c).description = c.description := by
  unfold VmConfig.description
  rw [D.getElem?_stamp c (by decide)]

theorem Digests.erase_stamp (c : VmConfig) : (D.stamp c).erase "digest" = c.erase "digest" := by
  unfold Digests.stamp
  apply Std.ExtTreeMap.ext_getElem?
  intro key
  simp only [Std.ExtTreeMap.getElem?_erase, Std.ExtTreeMap.getElem?_insert]
  split <;> rfl

theorem Digests.stamped_stamp (c : VmConfig) : D.Stamped (D.stamp c) := by
  have hstamp : D.stamp (D.stamp c) = D.stamp c := by
    rw [Digests.stamp, D.erase_stamp]
    rfl
  exact hstamp.symm

theorem Digests.Stamped.digest (h : D.Stamped c) :
    (c)["digest".toList]? = some (D.of (c.erase "digest")) := by
  conv_lhs => rw [h]
  unfold Digests.stamp
  exact Std.ExtTreeMap.getElem?_insert_self

/-- The digest tells configurations apart. -/
theorem Digests.Stamped.inj {c' : VmConfig} (h : D.Stamped c) (h' : D.Stamped c')
    (hd : (c)["digest".toList]? = c'["digest".toList]?) : c = c' := by
  rw [h.digest, h'.digest, Option.some.injEq] at hd
  have he := D.injective hd
  rw [h, h', Digests.stamp, Digests.stamp, he]

theorem configForm_stamped (h : D.Stamped c) (values : Form) :
    configForm values (c)["digest".toList]? = values ++ [(("digest" : Text), D.of (c.erase "digest"))] := by
  unfold configForm
  rw [h.digest, Option.map_some, D.trimmed, Option.filter_some, if_pos]
  simpa using D.nonempty _

end Digest

/-- One value of a configuration change. -/
def setField (c : VmConfig) (field : Text × Text) : VmConfig :=
  if field.1 = "digest" then c
  else if field.1 = "delete" then (field.2.splitOn ',').foldl (fun c key => c.erase key) c
  else c.insert field.1 field.2

theorem setField_digest (c : VmConfig) (d : Text) : setField c ("digest", d) = c := if_pos rfl

theorem setField_set (c : VmConfig) {key : Text} (value : Text) (hdigest : key ≠ "digest")
    (hdelete : key ≠ "delete") :
    setField c (key, value) = c.insert key value := by
  unfold setField
  rw [if_neg hdigest, if_neg hdelete]

theorem setField_description (c : VmConfig) (d : Text) :
    setField c ("description", d) = c.insert "description" d := setField_set c d (by decide) (by decide)

theorem setField_of_delete (c : VmConfig) {name key : Text} (hname : name = "delete") (hkey : ',' ∉ key) :
    setField c (name, key) = c.erase key := by
  have hdigest : name ≠ "digest" := by
    rw [hname]
    decide
  unfold setField
  rw [if_neg hdigest, if_pos hname, List.splitOn_eq_singleton hkey]
  rfl

theorem setField_delete (c : VmConfig) {key : Text} (hkey : ',' ∉ key) :
    setField c ("delete", key) = c.erase key :=
  setField_of_delete c rfl hkey

/-- Both ways to write a description leave that description. -/
theorem description_written {values : Form} {d : Text} 
    (hvalues : values = [(("description" : Text), d)] ∨ values = describeForm d)
    (c : VmConfig) (digest : Text) :
    ((values ++ [(("digest" : Text), digest)]).foldl setField c).description = d := by
  have hset : ∀ d : Text, ((([(("description" : Text), d)] : Form) ++
      [(("digest" : Text), digest)]).foldl setField
      c).description = d := by
    intro d
    simp only [List.cons_append, List.nil_append, List.foldl_cons, List.foldl_nil, setField_digest,
      setField_description]
    rw [VmConfig.description, Std.ExtTreeMap.getElem?_insert_self]
    rfl
  rcases hvalues with rfl | rfl
  · exact hset d
  · unfold describeForm
    split
    next hempty =>
      simp only [List.cons_append, List.nil_append, List.foldl_cons, List.foldl_nil, setField_digest]
      rw [setField_delete c (by decide)]
      rw [VmConfig.description, Std.ExtTreeMap.getElem?_erase_self, List.isEmpty_iff.mp hempty]
      rfl
    · exact hset d

/-- The VM as everyone sees it. -/
structure Vm where
  config : VmConfig
  clock : Nat

/-- What runs on the VM. -/
inductive Proc
  | acquire (holder : Holder)
  | release (inst job : Text)
  | journal (node : Text) (entry : Option Journal)

/-- A pending change that takes this key away. -/
def deletesKey (key : Text) (entry : Json) : Prop :=
  (entry.get "key").bind Json.asStr = some key ∧ ((entry.get "delete").bind Json.asU64).getD 0 ≠ 0

section System

variable (B : Base64) (SL : Serde Lease) (SJ : Serde Journal) (D : Digests) (vmid : Nat)

def Proc.prog : Proc → Prog Call Call.Answer (Except CoreError (Option Acquisition))
  | .acquire holder => (Lease.acquire B SL vmid holder).run
  | .release inst job => ExceptT.run do
    Lease.release B SL vmid inst job
    return none
  | .journal node entry => ExceptT.run do
    let vmCfg ← effectiveConfig node vmid
    let _ ← writeJournal B SJ node vmid vmCfg entry
    return none

/-- A change is accepted when the digest it carries is the one shown. -/
def Accepts (c : VmConfig) (form : Form) : Prop :=
  ∀ d, (("digest" : Text), d) ∈ form → (c)["digest".toList]? = some d

/-- What Proxmox may answer. A read of the configuration shows it or fails; a
change is refused, or it is accepted and takes effect, and then its answer may
be lost. The description and the digest have no pending changes. -/
def Answers (s : Vm) : (q : Call) → q.Answer → Vm → Prop
  | .get (.config _ v) _, r, t => t = s ∧ (v = vmid → ∀ value, r = .ok value →
      ∃ map, value = .obj map ∧ parseConfig map = s.config)
  | .get (.pending _ v) _, r, t => t = s ∧ (v = vmid → ∀ entries, r = .ok (.arr entries) →
      ∀ entry ∈ entries, ¬deletesKey "description" entry ∧ ¬deletesKey "digest" entry)
  | .put (.config _ v) form, r, t => (t = s ∧ (v = vmid → ∃ e, r = .error e)) ∨
      (v = vmid ∧ Accepts s.config form ∧ t = { s with config := D.stamp (form.foldl setField s.config) })
  | _, _, t => t = s

/-- A holder's clock does not run ahead. -/
def Proc.Started (s : Vm) : Proc → Prop
  | .acquire holder => holder.now ≤ s.clock
  | _ => True

/-- Time passes, or someone changes something else than the description. -/
def Idle (s t : Vm) : Prop :=
  s.clock ≤ t.clock ∧ D.Stamped t.config ∧ t.config.description = s.config.description

def world {ι : Type} (proc : ι → Proc) : Prog.Pool.World ι Call Call.Answer Vm where
  env i := { next := fun s q r t => (proc i).Started s ∧ Answers D vmid s q r t }
  idle := Idle D

/-! ## What each process may write -/

/-- The configuration was read, and `since` was asked after that. -/
def ReadSince (h : History) (vmCfg : VmConfig) (since : History) : Prop :=
  ∃ node map earlier, h = since ++ ⟨.get (.config node vmid) [], .ok (.obj map)⟩ :: earlier ∧
    parseConfig map = vmCfg

/-- The lease lets the holder work on the VM, as far as was asked. -/
def Passed (holder : Holder) (lease : Option Lease) (since : History) : Prop :=
  ∀ l, lease = some l →
    (l.inst = holder.inst ∧ (l.job = holder.job ∨ ⟨Call.running holder.inst l.job, false⟩ ∈ since)) ∨
      l.expiresAt ≤ holder.now

/-- A change of the description is made from a configuration that was read,
under its digest. -/
def Proc.Writes (h : History) (form : Form) : Proc → Prop
  | .acquire holder => ∃ vmCfg since lease d, ReadSince vmid h vmCfg since ∧
      readLease B SL vmCfg = .ok lease ∧ Passed holder lease since ∧
      Lease.descriptionWith B SL vmCfg.description (some holder.lease) = .ok d ∧
      form = configForm [("description", d)] vmCfg["digest".toList]?
  | .release inst job => ∃ vmCfg since lease d, ReadSince vmid h vmCfg since ∧
      readLease B SL vmCfg = .ok (some lease) ∧ lease.inst = inst ∧ lease.job = job ∧
      Lease.descriptionWith B SL vmCfg.description none = .ok d ∧
      form = configForm (describeForm d) vmCfg["digest".toList]?
  | .journal node entry => ∃ vmCfg since pending d, ReadSince vmid h vmCfg since ∧
      ⟨Call.get (.pending node vmid) [], .ok pending⟩ ∈ h ∧
      Journal.descriptionWith B SJ ((pending.asArray.getD []).foldl applyPending vmCfg).description entry =
        .ok d ∧
      form = configForm (describeForm d)
        ((pending.asArray.getD []).foldl applyPending vmCfg)["digest".toList]?

/-- Every change a process asks for is one it may write. -/
def Proc.Guard (p : Proc) (h : History) (q : Call) : Prop :=
  ∀ node form, q = .put (.config node vmid) form → p.Writes B SL SJ vmid h form

/-- An `acquire` that succeeded got its change accepted. -/
def Proc.Post (p : Proc) (r : Except CoreError (Option Acquisition)) (h : History) : Prop :=
  ∀ holder, p = .acquire holder → ∀ acq, r = .ok (some acq) → acq.lease = holder.lease ∧
    ∃ node form v, ⟨Call.put (.config node vmid) form, .ok v⟩ ∈ h

variable {B SL SJ vmid}

theorem guard_of_read {p : Proc} {h : History} {q : Call} (hq : q.isRead = true) :
    p.Guard B SL SJ vmid h q := by
  rintro node form rfl
  cases hq

theorem ReadSince.grow {h : History} {vmCfg : VmConfig} {since : History}
    (hr : ReadSince vmid h vmCfg since) (new : History) :
    ReadSince vmid (new ++ h) vmCfg (new ++ since) := by
  obtain ⟨node, map, earlier, rfl, hmap⟩ := hr
  exact ⟨node, map, earlier, by rw [List.append_assoc], hmap⟩

theorem Passed.grow {holder : Holder} {lease : Option Lease} {since : History}
    (hp : Passed holder lease since) (new : History) : Passed holder lease (new ++ since) := by
  intro l hl
  rcases hp l hl with ⟨hi, hj | hr⟩ | he
  · exact Or.inl ⟨hi, Or.inl hj⟩
  · exact Or.inl ⟨hi, Or.inr (List.mem_append_right _ hr)⟩
  · exact Or.inr he

theorem check_passed {lease : Lease} {holder : Holder} {running : Bool} {since : History} {u : Unit}
    (h : Lease.check vmid (some lease) holder (fun _ => running) = .ok u)
    (hr : lease.inst = holder.inst → lease.job ≠ holder.job → running = false →
      ⟨Call.running holder.inst lease.job, false⟩ ∈ since) : Passed holder (some lease) since := by
  rintro l ⟨⟩
  unfold Lease.check at h
  dsimp only at h
  split at h
  next hpass =>
    rcases hpass with ⟨hi, hj | hrun⟩ | he
    · exact Or.inl ⟨hi, Or.inl hj⟩
    · by_cases hj : lease.job = holder.job
      · exact Or.inl ⟨hi, Or.inl hj⟩
      · exact Or.inl ⟨hi, Or.inr (hr hi hj hrun)⟩
    · exact Or.inr he
  · cases h

theorem wpe_checkNow {p : Proc} {holder : Holder} {lease : Option Lease} {h : History} :
    wpe anything (p.Guard B SL SJ vmid) (Lease.checkNow vmid lease holder) h
      (fun _ t => ∃ new, t = new ++ h ∧ Passed holder lease new) fun _ _ => True := by
  unfold Lease.checkNow
  cases lease with
  | none => exact wpe_pure ⟨[], rfl, by simp [Passed]⟩
  | some l =>
    dsimp only
    split
    next hother =>
      refine wpe_call (guard_of_read rfl) fun running => ?_
      refine wpe_ofExcept (fun u hu => ⟨[_], rfl, check_passed hu fun _ _ hrun => ?_⟩) fun _ _ => trivial
      rw [hrun]
      exact List.mem_singleton_self _
    next hsame =>
      refine wpe_ofExcept (fun u hu => ⟨[], rfl, check_passed hu fun hi hj _ => ?_⟩) fun _ _ => trivial
      exact absurd ⟨hi, hj⟩ hsame

/-- An attempt writes under its guard, and says so when its write was taken. -/
theorem wpe_tryAcquire {holder : Holder} {node : Text} (h : History) :
    wpe anything (Proc.Guard B SL SJ vmid (.acquire holder)) (Lease.tryAcquire B SL node vmid holder) h
      (fun a t => a.2 = .ok () → ∃ node form v,
        ⟨Call.put (.config node vmid) form, .ok v⟩ ∈ t) fun _ _ => True := by
  refine wpe_bind.mpr (wpe_mono (wpe_vmConfig (guard_of_read rfl)) ?_ fun _ _ _ => trivial)
  rintro vmCfg _ ⟨map, rfl, hmap⟩
  refine wpe_bind.mpr (wpe_ofExcept ?_ fun _ _ => trivial)
  intro lease hlease
  refine wpe_bind.mpr (wpe_mono wpe_checkNow ?_ fun _ _ _ => trivial)
  rintro _ _ ⟨since, rfl, hpassed⟩
  refine wpe_bind.mpr (wpe_ofExcept ?_ fun _ _ => trivial)
  intro description hdescription
  have hread : ReadSince vmid (since ++ ⟨.get (.config node vmid) [], .ok (.obj map)⟩ :: h) vmCfg since :=
    ⟨node, map, h, rfl, hmap⟩
  split
  · exact wpe_bind.mpr (wpe_throw trivial)
  refine wpe_bind.mpr (wpe_attempt (wpe_mono (wpe_setVmConfig (fun _ => guard_of_read rfl) ?_) ?_ ?_))
  · rintro new _ _ ⟨⟩
    exact ⟨vmCfg, new ++ since, lease, description, hread.grow new, hlease,
      hpassed.grow new, hdescription, rfl⟩
  · rintro _ t ⟨-, v, hv⟩
    exact wpe_pure fun _ => ⟨node, _, v, hv⟩
  · rintro e t -
    exact wpe_pure (by rintro ⟨⟩)

theorem wpe_acquireLoop {holder : Holder} {node : Text} (n : Nat) (h : History) :
    wpe anything (Proc.Guard B SL SJ vmid (.acquire holder)) (Lease.acquireLoop B SL node vmid holder n) h
      (fun a t => ∀ acq, a = some acq → acq.lease = holder.lease ∧
        ∃ node form v, ⟨Call.put (.config node vmid) form, .ok v⟩ ∈ t) fun _ _ => True := by
  induction n generalizing h with
  | zero => exact wpe_throw trivial
  | succ n ih =>
    refine wpe_bind.mpr (wpe_mono (wpe_tryAcquire h) ?_ fun _ _ _ => trivial)
    rintro ⟨vmCfg, written⟩ t hwritten
    cases written with
    | ok u =>
      obtain ⟨node', form, v, hv⟩ := hwritten rfl
      refine wpe_bind.mpr (wpe_mono (wpe_vmConfig (guard_of_read rfl)) ?_ fun _ _ _ => trivial)
      rintro after _ ⟨map', rfl, -⟩
      refine wpe_pure ?_
      rintro acq ⟨⟩
      exact ⟨rfl, node', form, v, List.mem_cons_of_mem _ hv⟩
    | error e =>
      dsimp only
      split
      · exact ih t
      · exact wpe_throw trivial

theorem guarded_reads {p : Proc} {α : Type} {x : Op α} {h : History} (hx : Reads x) :
    wpe anything (p.Guard B SL SJ vmid) x h (fun _ t => ∃ new, t = new ++ h) fun _ t => ∃ new, t = new ++ h :=
  wpe_grows hx fun _ _ hq => guard_of_read hq

theorem reads_nodeOf : Reads (nodeOf vmid) := Reads.bind reads_clusterVmResources fun _ => Reads.pure

theorem wpe_releaseLoop {inst job : Text} (n : Nat) (h : History) :
    wpe anything (Proc.Guard B SL SJ vmid (.release inst job)) (Lease.releaseLoop B SL vmid inst job n) h
      (fun _ _ => True) fun _ _ => True := by
  induction n generalizing h with
  | zero => exact wpe_throw trivial
  | succ n ih =>
    refine wpe_bind.mpr (wpe_mono (guarded_reads reads_nodeOf) ?_ fun _ _ _ => trivial)
    rintro node h₁ -
    cases node with
    | none => exact wpe_pure trivial
    | some node =>
      refine wpe_bind.mpr (wpe_mono (wpe_vmConfig (guard_of_read rfl)) ?_ fun _ _ _ => trivial)
      rintro vmCfg _ ⟨map, rfl, hmap⟩
      refine wpe_bind.mpr (wpe_ofExcept ?_ fun _ _ => trivial)
      intro lease hlease
      cases lease with
      | none => exact wpe_pure trivial
      | some lease =>
        dsimp only
        split
        next hown =>
          refine wpe_bind.mpr (wpe_ofExcept ?_ fun _ _ => trivial)
          intro description hdescription
          have hread : ReadSince vmid (⟨.get (.config node vmid) [], .ok (.obj map)⟩ :: h₁) vmCfg [] :=
            ⟨node, map, h₁, rfl, hmap⟩
          refine wpe_bind.mpr (wpe_attempt (wpe_mono (wpe_setVmConfig (fun _ => guard_of_read rfl) ?_) ?_ ?_))
          · rintro new _ _ ⟨⟩
            exact ⟨vmCfg, new ++ [], lease, description, hread.grow new, hlease, hown.1,
              hown.2, hdescription, rfl⟩
          · exact fun _ _ _ => wpe_pure trivial
          · rintro e t -
            dsimp only
            split
            · exact ih t
            · exact wpe_throw trivial
        · exact wpe_pure trivial

theorem wpe_journal {node : Text} {entry : Option Journal} (h : History) :
    wpe anything (Proc.Guard B SL SJ vmid (.journal node entry))
      (do
        let vmCfg ← effectiveConfig node vmid
        let _ ← writeJournal B SJ node vmid vmCfg entry
        return (none : Option Acquisition)) h (fun _ _ => True) fun _ _ => True := by
  refine wpe_bind.mpr (wpe_bind.mpr (wpe_mono (wpe_vmConfig (guard_of_read rfl)) ?_ fun _ _ _ => trivial))
  rintro vmCfg _ ⟨map, rfl, hmap⟩
  refine wpe_bind.mpr (wpe_mono (wpe_get (guard_of_read rfl)) ?_ fun _ _ _ => trivial)
  rintro pending _ rfl
  refine wpe_pure (wpe_bind.mpr (wpe_bind.mpr (wpe_ofExcept ?_ fun _ _ => trivial)))
  intro description hdescription
  have hread : ReadSince vmid (⟨.get (.pending node vmid) [], .ok pending⟩ ::
      ⟨.get (.config node vmid) [], .ok (.obj map)⟩ :: h) vmCfg
        [⟨.get (.pending node vmid) [], .ok pending⟩] :=
    ⟨node, map, h, rfl, hmap⟩
  split
  · exact wpe_bind.mpr (wpe_throw trivial)
  refine wpe_bind.mpr (wpe_mono (wpe_setVmConfig (fun _ => guard_of_read rfl) ?_) ?_ fun _ _ _ => trivial)
  · rintro new _ _ ⟨⟩
    exact ⟨vmCfg, _, pending, description, hread.grow new,
      List.mem_append_right _ List.mem_cons_self, hdescription,
      rfl⟩
  · rintro _ t -
    exact wpe_mono (guarded_reads (reads_vmConfig node vmid))
      (fun _ _ _ => wpe_pure trivial) fun _ _ _ => trivial

/-- **Each process keeps to its guard**, whatever it is answered. -/
theorem Proc.guarded (p : Proc) :
    wp anything (p.Guard B SL SJ vmid) (p.prog B SL SJ vmid) [] (p.Post vmid) := by
  cases p with
  | acquire holder =>
    have hloop : wpe anything (Proc.Guard B SL SJ vmid (.acquire holder)) (Lease.acquire B SL vmid holder) []
        (fun a t => ∀ acq, a = some acq → acq.lease = holder.lease ∧
          ∃ node form v, ⟨Call.put (.config node vmid) form, .ok v⟩ ∈ t) fun _ _ => True := by
      refine wpe_bind.mpr (wpe_mono (guarded_reads reads_nodeOf) ?_ fun _ _ _ => trivial)
      rintro node t -
      cases node with
      | none => exact wpe_pure (by simp)
      | some node => exact wpe_acquireLoop _ t
    refine wp_mono hloop fun r t hr => ?_
    rintro _ ⟨⟩ acq rfl
    exact hr acq rfl
  | release inst job =>
    refine wp_mono (wpe_bind.mpr (wpe_mono (wpe_releaseLoop Lease.attempts []) (L := fun _ t => wpe anything
      (Proc.Guard B SL SJ vmid (.release inst job)) (pure none) t (fun _ _ => True) fun _ _ => True)
      (fun _ _ _ => wpe_pure trivial) fun _ _ h => h)) ?_
    rintro r t - holder ⟨⟩
  | journal node entry =>
    refine wp_mono (wpe_journal []) ?_
    rintro r t - holder ⟨⟩

/-! ## Accepted changes -/

variable (vmid) in
/-- What a process read was true when it read it. -/
structure Told (h : History) : Prop where
  config : ∀ node map, ⟨Call.get (.config node vmid) [], .ok (.obj map)⟩ ∈ h → D.Stamped (parseConfig map)
  pending : ∀ node entries, ⟨Call.get (.pending node vmid) [], .ok (.arr entries)⟩ ∈ h →
    ∀ entry ∈ entries, ¬deletesKey "description" entry ∧ ¬deletesKey "digest" entry

theorem getElem?_applyPending {c : VmConfig} {entry : Json} {key : Text} (hkey : ¬deletesKey key entry)
    (hname : Text.startsWith pendingUnused key = false) : (applyPending c entry)[key]? = (c)[key]? := by
  unfold applyPending
  dsimp only
  split
  · rfl
  next slot hslot =>
    split
    · rfl
    next hdelete =>
      have hne : slot ≠ key := fun h => hkey ⟨h ▸ hslot, hdelete⟩
      split
      · have hne' : pendingUnused ++ slot ≠ key := by
          rintro rfl
          rw [Text.startsWith, List.isPrefixOf_iff_prefix.mpr (List.prefix_append _ _)] at hname
          cases hname
        rw [Std.ExtTreeMap.getElem?_insert, if_neg (by simpa using hne'), Std.ExtTreeMap.getElem?_erase,
          if_neg (by simpa using hne)]
      · rw [Std.ExtTreeMap.getElem?_erase, if_neg (by simpa using hne)]

theorem getElem?_applyAllPending {c : VmConfig} {entries : List Json} {key : Text}
    (hkey : ∀ entry ∈ entries, ¬deletesKey key entry) (hname : Text.startsWith pendingUnused key = false) :
    (entries.foldl applyPending c)[key]? = (c)[key]? := by
  induction entries generalizing c with
  | nil => rfl
  | cons entry entries ih =>
    rw [List.foldl_cons, ih fun e he => hkey e (List.mem_cons_of_mem _ he)]
    exact getElem?_applyPending (hkey entry List.mem_cons_self) hname

/-- What an accepted change makes of the description of `c`. -/
def Proc.Changes (B : Base64) (SL : Serde Lease) (SJ : Serde Journal) (vmid : Nat) (h : History)
    (c : VmConfig) (d : Text) : Proc → Prop
  | .acquire holder => ∃ since lease, ReadSince vmid h c since ∧ readLease B SL c = .ok lease ∧
      Passed holder lease since ∧ Lease.descriptionWith B SL c.description (some holder.lease) = .ok d
  | .release inst job => ∃ lease, readLease B SL c = .ok (some lease) ∧ lease.inst = inst ∧ lease.job = job ∧
      Lease.descriptionWith B SL c.description none = .ok d
  | .journal _ entry => Journal.descriptionWith B SJ c.description entry = .ok d

variable {D}

/-- An accepted change was made from the configuration as it still is. -/
theorem accepted {vmCfg c : VmConfig} {values : Form} {d : Text}
    (hvalues : values = [(("description" : Text), d)] ∨ values = describeForm d) (hread : D.Stamped vmCfg)
    (hc : D.Stamped c) (haccept : Accepts c (configForm values vmCfg["digest".toList]?)) :
    vmCfg = c ∧
      (D.stamp ((configForm values vmCfg["digest".toList]?).foldl setField c)).description = d := by
  rw [configForm_stamped hread] at haccept ⊢
  constructor
  · have hd := haccept _ (List.mem_append_right _ (List.mem_singleton_self _))
    exact hread.inj hc (hread.digest.trans hd.symm)
  · rw [D.description_stamp]
    exact description_written hvalues c _

theorem ReadSince.told {h : History} {vmCfg : VmConfig} {since : History} (hr : ReadSince vmid h vmCfg since)
    (ht : Told D vmid h) : D.Stamped vmCfg := by
  obtain ⟨node, map, earlier, rfl, rfl⟩ := hr
  exact ht.config node map (List.mem_append_right _ List.mem_cons_self)

theorem Proc.Writes.changes {p : Proc} {h : History} {c : VmConfig} {form : Form}
    (hw : p.Writes B SL SJ vmid h form) (ht : Told D vmid h) (hc : D.Stamped c) (haccept : Accepts c form) :
    p.Changes B SL SJ vmid h c (D.stamp (form.foldl setField c)).description := by
  cases p with
  | acquire holder =>
    obtain ⟨vmCfg, since, lease, d, hread, hlease, hpassed, hd, rfl⟩ := hw
    obtain ⟨rfl, hdesc⟩ := accepted (Or.inl rfl) (hread.told ht) hc haccept
    exact ⟨since, lease, hread, hlease, hpassed, hd.trans (congrArg _ hdesc.symm)⟩
  | release inst job =>
    obtain ⟨vmCfg, since, lease, d, hread, hlease, hinst, hjob, hd, rfl⟩ := hw
    obtain ⟨rfl, hdesc⟩ := accepted (Or.inr rfl) (hread.told ht) hc haccept
    exact ⟨lease, hlease, hinst, hjob, hd.trans (congrArg _ hdesc.symm)⟩
  | journal node entry =>
    obtain ⟨vmCfg, since, pending, d, hread, hpending, hd, rfl⟩ := hw
    have hkeys : ∀ e ∈ pending.asArray.getD [], ¬deletesKey "description" e ∧ ¬deletesKey "digest" e := by
      cases pending with
      | arr entries => exact ht.pending node entries hpending
      | _ => exact fun e he => absurd he List.not_mem_nil
    have hdigest := getElem?_applyAllPending (c := vmCfg) (fun e he => (hkeys e he).2) (by decide)
    have hdescription := getElem?_applyAllPending (c := vmCfg) (fun e he => (hkeys e he).1) (by decide)
    rw [VmConfig.description, hdescription] at hd
    rw [hdigest] at haccept ⊢
    obtain ⟨rfl, hdesc⟩ := accepted (Or.inr rfl) (hread.told ht) hc haccept
    rw [Proc.Changes, hdesc]
    exact hd

end System

end HomeStack.Leasing
