import HomeStack.DestroyReview

/-! Every run of `destroy_workspace`, with any answers and stopped anywhere:
one DELETE at most, sent to what a last review showed to be the VM of the
plan, and success only when it is gone. -/

namespace HomeStack.WorkspaceDestroy

open Json (field)
open Prog Op

/-! ## The comparison with the plan -/

/-- The current identity and the reviewed one agree but for the status. -/
def SameBut (current reviewed : Json) : Prop := ∀ key ≠ ("status" : Text), current.get key = reviewed.get key

theorem sameBut_withStatus (current status : Json) : SameBut current (withStatus current status) := by
  intro key hne
  cases current with
  | obj entries => exact (Json.lookup_insert_ne status hne entries).symm
  | _ => rfl

/-- What the comparison after the shutdown makes sure of. -/
theorem compareReviewed_stopped {plan current : Json} {u : Unit}
    (h : compareReviewed plan true current = .ok u) :
    ∃ reviewed, plan.get "destructive_identity" = some reviewed ∧ plan.get "node" = reviewed.get "node" ∧
      field current "status" = .str "stopped" ∧ SameBut current reviewed := by
  unfold compareReviewed at h
  split at h
  · cases h
  next reviewed hreviewed =>
    obtain ⟨_, hfields, h⟩ := Except.bind_ok h
    obtain ⟨-, h⟩ := Except.guard_ok h
    obtain ⟨disks, -, h⟩ := Except.bind_ok h
    obtain ⟨_, -, h⟩ := Except.bind_ok h
    obtain ⟨hstopped, h⟩ := Except.guard_ok h
    have hsame : withStatus current (field reviewed "status") = reviewed := by
      by_contra hne
      simp only [if_true, ne_eq, hne, not_false_eq_true] at h
      cases h
    refine ⟨reviewed, (Option.filter_eq_some_iff.mp hreviewed).1, ?_, ?_, ?_⟩
    · have hnode := Except.forM_ok hfields "node" (by simp)
      unfold checkPlanField at hnode
      split at hnode
      · cases hnode
      next heq => exact not_not.mp heq
    · simpa using hstopped
    · rw [← hsame]
      exact sameBut_withStatus current _

/-! ## The DELETE -/

theorem planText_ok {plan : Json} {key value : Text} (h : planText plan key = .ok value) :
    plan.get key = some (.str value) := by
  unfold planText at h
  split at h
  next t ht =>
    cases h
    obtain ⟨v, hv, hs⟩ := Option.bind_eq_some_iff.mp ht
    cases v with
    | str s =>
      cases hs
      exact hv
    | _ => cases hs
  · cases h

/-- What stands before the DELETE of a destroy run: a review, made after the
shutdown step, of the VM and node of the plan. It equals the reviewed identity
but for the status, which is stopped. -/
structure Authorized (cfg : Config) (pool : Text) (plan : Json) (node : Text)
    (vmid : Nat) (before : History) :
    Prop where
  reviewed : ∃ reviewed current, plan.get "destructive_identity" = some reviewed ∧
    reviewed.get "node" = some (.str node) ∧ reviewed.get "vmid" = some (.int vmid) ∧
    current.get "status" = some (.str "stopped") ∧ SameBut current reviewed ∧
    ∃ name shutdown, Ran (prepareDestroy cfg pool plan) [] (vmid, node, name) shutdown ∧
      Ran (review cfg pool vmid) shutdown current before ∧
      ∃ asked, before = asked ++ shutdown ∧ ReviewSays cfg pool vmid current asked

/-- The DELETE of a VM that leaves other disks alone. -/
def deleteVm (node : Text) (vmid : Nat) : Call :=
  .delete (.vm node vmid) [("purge", "0"), ("destroy-unreferenced-disks", "0")]

/-- No DELETE was sent. -/
def NoDelete (h : History) : Prop := ∀ e ∈ h, e.q.isDelete = false

/-- The only DELETE of a run is authorized. -/
def DeleteGuard (cfg : Config) (pool : Text) (plan : Json) (before : History) (q : Call) : Prop :=
  q.isDelete = true → NoDelete before ∧ ∃ node vmid, q = deleteVm node vmid ∧
    Authorized cfg pool plan node vmid before

theorem prepareDestroy_asks (cfg : Config) (pool : Text) (plan : Json) :
    (prepareDestroy cfg pool plan).run.Asks fun q => q.isDelete = false := by
  have hread : ∀ {α : Type} {p : Op α}, Reads p → p.run.Asks fun q => q.isDelete = false :=
    fun h => h.mono fun _ => Call.isDelete_of_isRead
  refine asks_bind (hread Reads.ofExcept) fun vmid => asks_bind (hread Reads.ofExcept) fun node => ?_
  refine asks_bind (hread Reads.ofExcept) fun name =>
    asks_bind (hread (reads_validate cfg pool plan false)) fun _ => ?_
  refine asks_bind ?_ fun _ => trivial
  unfold shutdownStep
  split
  · refine asks_bind (asks_bind (asks_lift ⟨rfl, fun _ => trivial⟩) fun r => ?_) fun answer => ?_
    · cases r <;> trivial
    · refine asks_bind (hread Reads.ofExcept) fun upid =>
      asks_bind (hread (reads_waitTask _ _)) fun result => ?_
      exact hread (Reads.ite Reads.throw Reads.pure)
  · trivial

theorem prepareDestroy_ran {cfg : Config} {pool : Text} {plan : Json} {vmid : Nat} {node name : Text}
    {h t : History} (hr : Ran (prepareDestroy cfg pool plan) h (vmid, node, name) t) :
    vmidOf plan = .ok vmid ∧ planText plan "node" = .ok node := by
  unfold prepareDestroy at hr
  obtain ⟨vmid', h₁, hvmid, hr⟩ := Ran.bind hr
  obtain ⟨node', h₂, hnode, hr⟩ := Ran.bind hr
  obtain ⟨name', h₃, -, hr⟩ := Ran.bind hr
  obtain ⟨_, h₄, -, hr⟩ := Ran.bind hr
  obtain ⟨_, h₅, -, hr⟩ := Ran.bind hr
  obtain ⟨e, -⟩ := Ran.pure hr
  cases e
  exact ⟨(ran_ofExcept hvmid).1, (ran_ofExcept hnode).1⟩

/-- The second validation authorizes the DELETE. -/
theorem authorized_of_validate {cfg : Config} {pool : Text} {plan : Json} {vmid : Nat} {node name : Text}
    {shutdown before : History} {u : Unit} (hprepare : Ran (prepareDestroy cfg pool plan) []
      (vmid, node, name) shutdown)
    (hvalidate : Ran (validate cfg pool plan true) shutdown u before) :
      Authorized cfg pool plan node vmid before := by
  obtain ⟨hvmid, hnode⟩ := prepareDestroy_ran hprepare
  unfold validate at hvalidate
  obtain ⟨vmid', h₁, hvmid', hr⟩ := Ran.bind hvalidate
  obtain ⟨hsame, rfl⟩ := ran_ofExcept hvmid'
  cases hvmid.symm.trans hsame
  obtain ⟨current, h₂, hreview, hr⟩ := Ran.bind hr
  obtain ⟨hcompare, rfl⟩ := ran_ofExcept hr
  obtain ⟨reviewed, hget, hplan, hstatus, hsame⟩ := compareReviewed_stopped hcompare
  obtain ⟨asked, hasked, hsays⟩ := review_ran hreview
  refine ⟨reviewed, current, hget, ?_, ?_, ?_, hsame, name, _, hprepare, hreview, asked, hasked, hsays⟩
  · rw [← hplan]
    exact planText_ok hnode
  · obtain ⟨node', config, storage, definitions, -, hid, -⟩ := hsays
    rw [← hsame "vmid" (by decide)]
    exact hid
  · unfold field at hstatus
    cases hs : current.get "status" with
    | none =>
      rw [hs] at hstatus
      cases hstatus
    | some v =>
      rw [hs] at hstatus
      exact congrArg some hstatus

theorem guard_of_not_delete {cfg : Config} {pool : Text} {plan : Json} (h : History) (q : Call)
    (hq : q.isDelete = false) : DeleteGuard cfg pool plan h q := by
  intro hd
  rw [hq] at hd
  cases hd

theorem guard_of_read {cfg : Config} {pool : Text} {plan : Json} (h : History) (q : Call)
    (hq : q.isRead = true) :
    DeleteGuard cfg pool plan h q := guard_of_not_delete h q (Call.isDelete_of_isRead hq)

theorem guarded_reads {cfg : Config} {pool : Text} {plan : Json} {α : Type} {p : Op α}
    {h : History} (hp : Reads p) :
    wpe anything (DeleteGuard cfg pool plan) p h (fun _ _ => True) fun _ _ => True :=
  wpe_inv (J := fun _ => True) hp trivial (fun _ _ _ _ _ _ _ => trivial) fun h q hq _ => guard_of_read h q hq

/-- After the DELETE the run only reads. -/
theorem deleteTask_guarded {cfg : Config} {pool : Text} {plan : Json} {node : Text} {vmid : Nat} {what : Text}
    {timeout : Nat} {before : History} (hnone : NoDelete before)
    (hauth : Authorized cfg pool plan node vmid before) :
    wpe anything (DeleteGuard cfg pool plan)
      (deleteTask (.vm node vmid) [("purge", "0"), ("destroy-unreferenced-disks", "0")] what timeout) before
      (fun _ _ => True) fun _ _ => True := by
  refine wpe_bind.mpr (wpe_mono (K := fun _ _ => True) (X := fun _ _ => True) ?_ ?_ fun _ _ h => h)
  · refine wpe_attempt (wpe_bind.mpr (wpe_bind.mpr (wpe_lift ?_)))
    refine wp_call (fun _ => ⟨hnone, node, vmid, rfl, hauth⟩) fun r t _ => ?_
    cases r with
    | error e => exact wpe_throw trivial
    | ok answer => exact wpe_pure (guarded_reads (reads_finishTask answer what timeout))
  · intro r t _
    cases r with
    | ok u => exact wpe_pure trivial
    | error e => exact wpe_throw trivial

theorem destroyWorkspace_guarded (cfg : Config) (pool : Text) (plan : Json) :
    wpe anything (DeleteGuard cfg pool plan) (destroyWorkspace cfg pool plan) [] (fun _ _ => True)
      fun _ _ => True := by
  have hasks := prepareDestroy_asks cfg pool plan
  refine wpe_bind.mpr (wpe_mono (wpe_self hasks guard_of_not_delete) ?_ fun _ _ h => h)
  rintro ⟨vmid, node, name⟩ shutdown hprepare
  obtain ⟨new, hnew, hnone⟩ := Exec.asked hasks hprepare
  rw [List.append_nil] at hnew
  subst hnew
  refine wpe_bind.mpr (wpe_mono (K := fun _ _ => True) (X := fun _ _ => True) ?_
    (fun _ _ _ => wpe_pure trivial)
    fun _ _ h => h)
  have hvalidate := reads_validate cfg pool plan true
  refine wpe_bind.mpr (wpe_mono (wpe_self hvalidate guard_of_read) ?_ fun _ _ h => h)
  intro _ before hrun
  obtain ⟨asked, hasked, hreads⟩ := Exec.asked hvalidate hrun
  have hbefore : NoDelete before := by
    rw [hasked]
    intro e he
    rcases List.mem_append.mp he with he | he
    · exact Call.isDelete_of_isRead (hreads e he)
    · exact hnone e he
  refine wpe_bind.mpr (wpe_mono (deleteTask_guarded hbefore (authorized_of_validate hprepare hrun)) ?_
    fun _ _ h => h)
  intro _ t _
  refine wpe_bind.mpr (wpe_mono (guarded_reads reads_clusterVmResources) ?_ fun _ _ h => h)
  intro rs t _
  exact guarded_reads (Reads.guard fun _ => reads_confirmAbsent plan)

/-- A guarded history holds one DELETE at most. -/
theorem count_delete {cfg : Config} {pool : Text} {plan : Json} {t : History}
    (hg : Guarded (DeleteGuard cfg pool plan) t []) : t.countP (fun e => e.q.isDelete) ≤ 1 := by
  induction t with
  | nil => simp
  | cons e t ih =>
    by_cases hd : e.q.isDelete = true
    · have hnone : t.countP (fun e => e.q.isDelete) = 0 := by
        rw [List.countP_eq_zero]
        intro a ha
        have := (hg.1 hd).1 a (by simpa using ha)
        simpa using this
      simp [hd, hnone]
    · simpa [List.countP_cons, hd] using ih hg.2

/-! ## Success -/

/-- The VM is not listed any more, and no reviewed volume on a reviewed
store. -/
structure Gone (plan : Json) (node : Text) (vmid : Nat) (after : History) : Prop where
  vm : ∃ items, ⟨Call.get .clusterResources [("type", "vm")], .ok (.arr items)⟩ ∈ after ∧
    ∀ entry ∈ items.filterMap vmMap, entry.1 ≠ vmid
  volumes : ∃ reviewed stores volumes, plan.get "destructive_identity" = some reviewed ∧
    reviewed.get "storage" = some (.obj stores) ∧ reviewed.get "volumes" = some (.obj volumes) ∧
    ∀ store ∈ stores, ∃ entries,
      ⟨Call.get (.storageContent node store.1) [("content", "images")], .ok (.arr entries)⟩ ∈ after ∧
        ∀ entry ∈ entries, ∃ volid, field entry "volid" = .str volid ∧ Json.lookup volid volumes = none

theorem deleteTask_ran {path : Path} {query : Form} {what : Text} {timeout : Nat} {u : Unit} {h t : History}
    (hr : Ran (deleteTask path query what timeout) h u t) :
    ∃ new answer, t = new ++ ⟨.delete path query, .ok answer⟩ :: h := by
  unfold deleteTask at hr
  obtain ⟨r, s, hattempt, hr⟩ := Ran.bind hr
  cases r with
  | error e => exact (Ran.throw hr).elim
  | ok u =>
    obtain ⟨-, rfl⟩ := Ran.pure hr
    obtain ⟨answer, s', hdelete, hfinish⟩ := Ran.bind (show Ran _ h u _ from hattempt.attempt)
    obtain ⟨new, hnew⟩ := hfinish.grows
    exact ⟨new, answer, by rw [hnew, ran_delete hdelete]⟩

theorem clusterVmResources_ran {rs : List StatusResource} {h t : History}
    (hr : Ran clusterVmResources h rs t) :
    ∃ items, t = ⟨.get .clusterResources [("type", "vm")], .ok (.arr items)⟩ :: h ∧
      ∀ entry ∈ items.filterMap vmMap, ∃ r ∈ rs, r.vmid = entry.1 := by
  unfold clusterVmResources at hr
  obtain ⟨maps, s, hmaps, hr⟩ := Ran.bind hr
  obtain ⟨rfl, rfl⟩ := Ran.pure hr
  unfold clusterVmMaps at hmaps
  obtain ⟨v, s', hget, hmaps⟩ := Ran.bind hmaps
  have ht := ran_get hget
  cases v with
  | arr items =>
    obtain ⟨rfl, rfl⟩ := Ran.pure hmaps
    refine ⟨items, ht, fun entry he => ⟨statusResource entry, ?_, rfl⟩⟩
    rw [List.mem_insertionSort]
    exact List.mem_map_of_mem he
  | _ => exact (Ran.throw hmaps).elim

theorem field_eq {value v : Json} {key : Text} (h : field value key = v) (hv : v ≠ .null) :
    value.get key = some v := by
  unfold field at h
  cases hg : value.get key with
  | none =>
    rw [hg] at h
    exact absurd h.symm hv
  | some w =>
    rw [hg] at h
    exact congrArg some h

theorem asObject_eq {v : Json} {entries : List (Text × Json)} (h : v.asObject = some entries) :
    v = .obj entries := by
  cases v with
  | obj entries' =>
    cases h
    rfl
  | _ => cases h

theorem checkGone_ok {volumes : List (Text × Json)} {entry : Json} {u : Unit}
    (h : checkGone volumes entry = .ok u) :
    ∃ volid, field entry "volid" = .str volid ∧ Json.lookup volid volumes = none := by
  unfold checkGone at h
  obtain ⟨volid, hvolid, h⟩ := Except.bind_ok h
  refine ⟨volid, text_ok hvolid, ?_⟩
  split at h
  · cases h
  next hnone => simpa using hnone

/-- Every reviewed store was listed without a reviewed volume. -/
theorem confirmAbsent_ran {plan : Json} {u : Unit} {h t : History} (hr : Ran (confirmAbsent plan) h u t) :
    ∃ node stores volumes new, t = new ++ h ∧ field (field plan "destructive_identity") "node" = .str node ∧
      field (field plan "destructive_identity") "storage" = .obj stores ∧
      field (field plan "destructive_identity") "volumes" = .obj volumes ∧
      ∀ store ∈ stores, ∃ entries,
        ⟨Call.get (.storageContent node store.1) [("content", "images")], .ok (.arr entries)⟩ ∈ new ∧
          ∀ entry ∈ entries, ∃ volid, field entry "volid" = .str volid ∧
            Json.lookup volid volumes = none := by
  unfold confirmAbsent at hr
  dsimp only at hr
  obtain ⟨node, h₁, hnode, hlist⟩ := Ran.bind hr
  obtain ⟨hnode, hsame⟩ := ran_ofExcept hnode
  rw [hsame] at hlist
  split at hlist
  · exact (Ran.throw hlist).elim
  · exact (Ran.throw hlist).elim
  next stores volumes hstores hvolumes =>
    have hloop := Ran.forM (I := fun done t => ∃ new, t = new ++ h ∧ ∀ store ∈ done, ∃ entries,
        ⟨Call.get (.storageContent node store) [("content", "images")], .ok (.arr entries)⟩ ∈ new ∧
          ∀ entry ∈ entries, ∃ volid, field entry "volid" = .str volid ∧ Json.lookup volid volumes = none)
      ?_ ⟨[], rfl, by simp⟩ hlist
    · obtain ⟨new, hnew, hall⟩ := hloop
      refine ⟨node, stores, volumes, new, hnew, text_ok hnode, asObject_eq hstores, asObject_eq hvolumes, ?_⟩
      exact fun store hs => hall store.1 (List.mem_map_of_mem hs)
    · rintro done store s _ t' ⟨new, rfl, ih⟩ hstep
      obtain ⟨content, s', hget, hstep⟩ := Ran.bind hstep
      obtain ⟨hcheck, rfl⟩ := ran_ofExcept hstep
      obtain ⟨entries, harray, hcheck⟩ := Except.bind_ok hcheck
      refine ⟨⟨.get (.storageContent node store) [("content", "images")], .ok content⟩ :: new,
        ran_get hget, ?_⟩
      intro store' hm
      rcases List.mem_append.mp hm with hm | hm
      · obtain ⟨entries', he, hgone⟩ := ih store' hm
        exact ⟨entries', List.mem_cons_of_mem _ he, hgone⟩
      · rw [List.mem_singleton.mp hm]
        rw [array_ok harray]
        exact ⟨entries, List.mem_cons_self, fun entry he => checkGone_ok (Except.forM_ok hcheck entry he)⟩

/-- A run that reports success made its DELETE and found everything gone. -/
theorem destroyWorkspace_ran {cfg : Config} {pool : Text} {plan v : Json} {t : History}
    (hr : Ran (destroyWorkspace cfg pool plan) [] v t) :
    ∃ after answer before node vmid, t = after ++ ⟨deleteVm node vmid, answer⟩ :: before ∧
      Gone plan node vmid after := by
  unfold destroyWorkspace at hr
  obtain ⟨⟨vmid, node, name⟩, shutdown, hprepare, hr⟩ := Ran.bind hr
  obtain ⟨_, t', hstep, hr⟩ := Ran.bind hr
  obtain ⟨-, ht⟩ := Ran.pure hr
  unfold destroyStep at hstep
  obtain ⟨_, before, hvalidate, hstep⟩ := Ran.bind hstep
  obtain ⟨_, s, hdelete, hstep⟩ := Ran.bind hstep
  obtain ⟨new, answer, hnew⟩ := deleteTask_ran hdelete
  obtain ⟨rs, s', hrs, hstep⟩ := Ran.bind hstep
  obtain ⟨items, hitems, hlisted⟩ := clusterVmResources_ran hrs
  obtain ⟨hany, hstep⟩ := Ran.guard hstep
  obtain ⟨node', stores, volumes, confirmed, hconfirmed, hnode', hstores, hvolumes, hall⟩ :=
    confirmAbsent_ran hstep
  obtain ⟨reviewed, current, hget, hnode, -⟩ := (authorized_of_validate hprepare hvalidate).reviewed
  have hfield : field plan "destructive_identity" = reviewed := by
    unfold field
    rw [hget]
    rfl
  rw [hfield] at hnode' hstores hvolumes
  cases hnode.symm.trans (field_eq hnode' (by simp))
  refine ⟨confirmed ++ ⟨.get .clusterResources [("type", "vm")], .ok (.arr items)⟩ :: new,
    .ok answer, before, node,
    vmid, ?_, ?_, ?_⟩
  · rw [ht, hconfirmed, hitems, hnew]
    simp [deleteVm]
  · refine ⟨items, by simp, fun entry he heq => hany ?_⟩
    obtain ⟨r, hr, hvmid⟩ := hlisted entry he
    exact List.any_eq_true.mpr ⟨r, hr, by simp [hvmid, heq]⟩
  · refine ⟨reviewed, stores, volumes, hget, field_eq hstores (by simp), field_eq hvolumes (by simp), ?_⟩
    intro store hs
    obtain ⟨entries, he, hgone⟩ := hall store hs
    exact ⟨entries, List.mem_append_left _ he, hgone⟩

/-- **Destroy deletes only what was reviewed.** In every run of
`destroy_workspace`, with any answers and stopped anywhere, at most one DELETE
is sent. It is that of the reviewed VM on the reviewed node, after a review of
it made since the shutdown step. The run reports success only when nothing of
it is listed any more. -/
theorem destroy_only_reviewed {cfg : Config} {pool : Text} {plan : Json} {o : Option (Except CoreError Json)}
    {t : History} (hr : Exec anything (destroyWorkspace cfg pool plan).run [] o t) :
    t.countP (fun e => e.q.isDelete) ≤ 1 ∧
    (∀ after e before, t = after ++ e :: before → e.q.isDelete = true →
      ∃ node vmid, e.q = deleteVm node vmid ∧ Authorized cfg pool plan node vmid before) ∧
    ∀ v, o = some (.ok v) → ∃ after answer before node vmid,
      t = after ++ ⟨deleteVm node vmid, answer⟩ :: before ∧ Gone plan node vmid after := by
  obtain ⟨new, hnew, hguarded⟩ := wp_guarded (destroyWorkspace_guarded cfg pool plan) hr
  rw [List.append_nil] at hnew
  subst hnew
  refine ⟨count_delete hguarded, ?_, ?_⟩
  · rintro after e before rfl hd
    have := (hguarded.at hd).2
    rwa [List.append_nil] at this
  · rintro v rfl
    exact destroyWorkspace_ran hr

/-! ## A run -/

namespace Sample

def tags : Text := "homestack-ws"

def root : Text := "local:vm-100-disk-0,size=8G"

def home : Text := "local:vm-100-hs-home,serial=HS_HOME_100,size=32G"

def configAnswer : Json :=
  .obj [("digest", .str "d1"), ("name", .str "dev"), ("scsi0", .str root),
    ("scsi1", .str home), ("tags", .str tags)]

def store : Json :=
  .obj [("content", .str "images"), ("storage", .str "local"), ("type", .str "lvmthin")]

def volume (name : Text) : Json :=
  .obj [("format", .str "raw"), ("vmid", .int 100), ("volid", .str ("local:" ++ name))]

/-- A running workspace that shuts down and is deleted. -/
def answer (h : History) : (c : Call) → c.Answer
  | .rounds => (1 : Nat)
  | .running .. => true
  | .probe _ => .ok none
  | .uuid => []
  | .put .. => .ok .null
  | .post .. => .ok (.str "UPID:pve1:1:2:3:qmshutdown:100:root@pam:")
  | .delete .. => .ok (.str "UPID:pve1:1:2:3:qmdestroy:100:root@pam:")
  | .get path _ =>
    let deleted := h.any fun e => e.q.isDelete
    let stopped := h.any fun e => e.q matches .post ..
    let vm : Json := .obj [("node", .str "pve1"), ("pool", .str "ws"),
      ("type", .str "qemu"), ("vmid", .int 100)]
    .ok (match path with
    | .clusterResources => .arr (if deleted then [] else [vm])
    | .config .. => configAnswer
    | .pool _ => .obj [("members", .arr [vm])]
    | .nodeQemu _ => .arr [vm]
    | .snapshot .. => .arr [.obj [("name", .str "current")]]
    | .statusCurrent .. =>
      .obj [("ha", .obj [("managed", .int 0)]), ("status", .str (if stopped then "stopped" else "running"))]
    | .storage => .arr [store]
    | .storageStatus .. => .obj [("active", .int 1), ("enabled", .int 1)]
    | .storageContent .. => .arr (if deleted then [] else [volume "vm-100-disk-0", volume "vm-100-hs-home"])
    | .taskStatus .. => .obj [("exitstatus", .str "OK"), ("status", .str "stopped")]
    | _ => .arr [])

def step (h : History) (q : Call) : q.Answer × History := (answer h q, ⟨q, answer h q⟩ :: h)

def config : VmConfig := parseConfig (configAnswer.asObject.getD [])

def reviewed : Json :=
  identity 100 "pve1" "ws" (.str "running") config
    [⟨"scsi0", "root", "local:vm-100-disk-0", some "local", root, none⟩,
      ⟨"scsi1", "home", "local:vm-100-hs-home", some "local", home, some "HS_HOME_100"⟩]
    ⟨.ofList [("local".toList, store)],
      .ofList [("local:vm-100-disk-0".toList, volume "vm-100-disk-0"),
        ("local:vm-100-hs-home".toList, volume "vm-100-hs-home")]⟩

def plan : Json :=
  .obj [("command", .str "destroy"), ("destructive_identity", reviewed), ("home_disk", .str "scsi1"),
    ("home_label", .str "HS_HOME_100"), ("home_storage", .str "local"),
      ("home_volume", .str "local:vm-100-hs-home"),
    ("name", .str "dev"), ("node", .str "pve1"), ("pool", .str "ws"), ("root_disk", .str "scsi0"),
    ("root_storage", .str "local"), ("root_volume", .str "local:vm-100-disk-0"), ("status", .str "running"),
    ("vmid", .int 100)]

theorem succeeds :
    (play step (destroyWorkspace sampleConfig "ws" plan).run []).1.toOption.isSome = true := by
  decide +kernel

end Sample

/-- A run that deletes its VM once and finds it gone. -/
theorem destroy_only_reviewed_running : ∃ v t,
    Exec anything (destroyWorkspace sampleConfig "ws" Sample.plan).run [] (some (.ok v)) t ∧
      t.countP (fun e => e.q.isDelete) ≤ 1 ∧ ∃ after answer before node vmid,
        t = after ++ ⟨deleteVm node vmid, answer⟩ :: before ∧
          Authorized sampleConfig "ws" Sample.plan node vmid before ∧ Gone Sample.plan node vmid after := by
  have hrun : Exec anything (destroyWorkspace sampleConfig "ws" Sample.plan).run [] _ _ :=
    exec_play (g := Sample.step) (fun _ _ => rfl) _ []
  obtain ⟨v, hv⟩ := Option.isSome_iff_exists.mp Sample.succeeds
  rw [Except.ok_of_toOption hv] at hrun
  obtain ⟨hcount, hauth, hgone⟩ := destroy_only_reviewed hrun
  obtain ⟨after, answer, before, node, vmid, ht, hgone⟩ := hgone v rfl
  obtain ⟨node', vmid', heq, hauth⟩ := hauth after _ before ht rfl
  cases heq
  exact ⟨v, _, hrun, hcount, after, answer, before, node, vmid, ht, hauth, hgone⟩

end HomeStack.WorkspaceDestroy
