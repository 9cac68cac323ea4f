import HomeStack.AddKeyPlan
import HomeStack.VmCalls

/-! Whether `add_key` gets its keys into the guest. Each run that succeeds ends in one
of two ways: the last look at `authorized_keys` found every key, or no look was
taken and the keys wait in the VM's user-data. They wait in vain when the guest has
booted with just that user-data. -/

namespace HomeStack.AddKey

open Op Guest
open Prog (Env Event Exec Plays Ran play exec_play exec_play_inv wpe wpe_attempt wpe_bind wpe_done wpe_inv
  wpe_lift wpe_mono wpe_pure
  wpe_throw)

/-! ## The VM -/

/-- A VM: its configuration less the digest, the user-data that its guest last booted
with, and the questions that were asked. -/
structure Machine where
  config : VmConfig
  booted : Text
  log : History

/-- A configuration after a change. -/
def changed (form : Form) (config : VmConfig) : VmConfig :=
  form.foldl (fun c f => if f.1 = "digest".toList then c else c.insert f.1 f.2) config

/-- Reads, and calls that only reach the guest or stop it. -/
def keeps : Call → Bool
  | .post (.agent ..) _ => true
  | .post (.statusShutdown ..) _ => true
  | c => c.isRead

/-- Proxmox with any answers. A configuration is shown as it is; a change is made or
not, and a start generates the user-data `U` anew or fails. -/
def proxmox (U : VmConfig → Text) (vmid : Nat) : Env Call Call.Answer Machine where
  next w q r t := t.log = ⟨q, r⟩ :: w.log ∧
    match q, r with
    | .get (.config _ v) _, .ok (.obj map) =>
      t.config = w.config ∧ t.booted = w.booted ∧
        (v = vmid → (parseConfig map).erase "digest".toList = w.config)
    | .post (.config _ v) form, _ =>
      t.booted = w.booted ∧ (t.config = w.config ∨ v = vmid ∧ t.config = changed form w.config)
    | .post (.statusStart _ _) _, _ => t.config = w.config ∧ (t.booted = w.booted ∨ t.booted = U w.config)
    | q, _ => keeps q = true → t.config = w.config ∧ t.booted = w.booted

variable {U : VmConfig → Text} {vmid : Nat} {w t : Machine}

theorem next_log {q : Call} {r : q.Answer} (h : (proxmox U vmid).next w q r t) : t.log = ⟨q, r⟩ :: w.log :=
  h.1

theorem next_keeps {q : Call} {r : q.Answer} (hq : keeps q = true) (h : (proxmox U vmid).next w q r t) :
    t.config = w.config ∧ t.booted = w.booted := by
  have h := h.2
  split at h
  · exact ⟨h.1, h.2.1⟩
  · cases hq
  · cases hq
  · exact h hq

theorem keeps_of_isRead {q : Call} (h : q.isRead = true) : keeps q = true := by
  cases q with
  | post path form => cases h
  | put path form => cases h
  | delete path form => cases h
  | _ => rfl

theorem changed_getElem? (form : Form) (c : VmConfig) (k : Text) :
    (changed form c)[k]? =
      ((form.reverse.find? fun f => f.1 = k ∧ k ≠ "digest".toList).map Prod.snd).or (c)[k]? := by
  induction form generalizing c with
  | nil => rfl
  | cons f form ih =>
    have hstep : changed (f :: form) c = changed form (if f.1 = "digest".toList then c
    else c.insert f.1 f.2) := rfl
    rw [hstep, ih, List.reverse_cons, List.find?_append, Option.map_or, Option.or_assoc]
    congr 1
    let p (f : Text × Text) : Bool := f.1 = k ∧ k ≠ "digest".toList
    by_cases hk : f.1 = k ∧ k ≠ "digest".toList
    · have hd : f.1 ≠ "digest".toList := hk.1 ▸ hk.2
      rw [List.find?_cons_of_pos (p := p) (decide_eq_true hk), if_neg hd, hk.1,
        Std.ExtTreeMap.getElem?_insert_self]
      rfl
    · rw [List.find?_cons_of_neg (p := p) fun h => hk (of_decide_eq_true h)]
      by_cases hd : f.1 = "digest".toList
      · rw [if_pos hd]
        rfl
      · have hne : f.1 ≠ k := fun h => hk ⟨h, h ▸ hd⟩
        rw [if_neg hd, Std.ExtTreeMap.getElem?_insert, if_neg (by simpa using hne)]
        rfl

/-- A change made twice. -/
theorem changed_changed (form : Form) (c : VmConfig) : changed form (changed form c) = changed form c := by
  refine Std.ExtTreeMap.ext_getElem? fun k => ?_
  rw [changed_getElem?, changed_getElem?]
  cases (form.reverse.find? fun f => f.1 = k ∧ k ≠ "digest".toList) with
  | none => rfl
  | some f => rfl

theorem option_erase_digest {c c' : VmConfig} (h : c.erase "digest".toList = c') {key : Text}
    (hkey : key ≠ "digest".toList) : option c key = option c' key := by
  unfold option
  rw [← h, Std.ExtTreeMap.getElem?_erase, if_neg (by simpa using hkey.symm)]

/-! ## Runs that ask no agent -/

/-- A call to the agent. -/
def asksAgent : Call → Bool
  | .get (.agent ..) _ => true
  | .post (.agent ..) _ => true
  | _ => false

/-- A read that asks no agent. -/
def Quiet (q : Call) : Prop := q.isRead = true ∧ asksAgent q = false

/-- The log grew without a call to the agent. -/
def Unasked (w t : Machine) : Prop := ∃ new, t.log = new ++ w.log ∧ ∀ e ∈ new, asksAgent e.q = false

theorem Unasked.refl : Unasked w w := ⟨[], rfl, by simp⟩

theorem Unasked.trans {u : Machine} (h : Unasked w t) (h' : Unasked t u) : Unasked w u := by
  obtain ⟨new, hnew, hall⟩ := h
  obtain ⟨new', hnew', hall'⟩ := h'
  refine ⟨new' ++ new, by rw [hnew', hnew, List.append_assoc], fun e he => ?_⟩
  rcases List.mem_append.mp he with he | he
  · exact hall' e he
  · exact hall e he

theorem Unasked.next {q : Call} {r : q.Answer} (hq : asksAgent q = false)
    (h : (proxmox U vmid).next w q r t) :
    Unasked w t := by
  refine ⟨[⟨q, r⟩], next_log h, fun e he => ?_⟩
  rw [List.mem_singleton.mp he]
  exact hq

/-- Nothing changed, and no agent was asked. -/
structure Calmly (w t : Machine) : Prop where
  config : t.config = w.config
  booted : t.booted = w.booted
  log : Unasked w t

theorem Calmly.refl : Calmly w w := ⟨rfl, rfl, Unasked.refl⟩

theorem Calmly.trans {u : Machine} (h : Calmly w t) (h' : Calmly t u) : Calmly w u :=
  ⟨h'.config.trans h.config, h'.booted.trans h.booted, h.log.trans h'.log⟩

theorem Calmly.next {q : Call} {r : q.Answer} (hq : Quiet q) (h : (proxmox U vmid).next w q r t) :
    Calmly w t :=
  ⟨(next_keeps (keeps_of_isRead hq.1) h).1, (next_keeps (keeps_of_isRead hq.1) h).2, Unasked.next hq.2 h⟩

/-- In every run that succeeds, `K` holds at its end. -/
abbrev Runs {α : Type} (U : VmConfig → Text) (vmid : Nat) (p : Op α) (w : Machine) (K : α → Machine → Prop) :
    Prop :=
  wpe (proxmox U vmid) (fun _ _ => True) p w K fun _ _ => True

namespace Runs

variable {α β : Type} {K : α → Machine → Prop}

theorem bind {x : Op β} {f : β → Op α} {L : β → Machine → Prop} (hx : Runs U vmid x w L)
    (hf : ∀ b t, L b t → Runs U vmid (f b) t K) : Runs U vmid (x >>= f) w K :=
  wpe_bind.mpr (wpe_mono hx hf fun _ _ he => he)

theorem pure {a : α} (h : K a w) : Runs U vmid (Pure.pure a : Op α) w K := wpe_pure h

theorem throw {e : CoreError} : Runs U vmid (MonadExcept.throw e : Op α) w K := wpe_throw trivial

theorem ofExcept {x : Except CoreError α} (h : ∀ a, x = .ok a → K a w) : Runs U vmid (Op.ofExcept x) w K := by
  cases x with
  | ok a => exact pure (h a rfl)
  | error e => exact throw

/-- A result that is used. -/
theorem except {x : Except CoreError β} {f : β → Op α} (h : ∀ b, x = .ok b → Runs U vmid (f b) w K) :
    Runs U vmid (Op.ofExcept x >>= f) w K := by
  cases x with
  | ok b => exact h b rfl
  | error e => exact throw

theorem guard {c : Prop} [Decidable c] {e : CoreError} {f : PUnit → Op α}
    (h : ¬c → Runs U vmid (f PUnit.unit) w K) :
    Runs U vmid (if c then MonadExcept.throw e >>= f else f PUnit.unit) w K := by
  split
  · exact throw
  · next hc => exact h hc

theorem call {c : Call} {f : c.Answer → Op α}
    (h : ∀ r t, (proxmox U vmid).next w c r t → Runs U vmid (f r) t K) :
    Runs U vmid (Op.call c >>= f) w K :=
  wpe_bind.mpr (wpe_lift ⟨trivial, fun r t hn => h r t hn⟩)

/-- What every question keeps. -/
theorem keeping {P : Call → Prop} {J : Machine → Prop} {p : Op α} (hp : p.run.Asks P) (hw : J w)
    (hn : ∀ s q r s', P q → J s → (proxmox U vmid).next s q r s' → J s') : Runs U vmid p w fun _ t => J t :=
  wpe_mono (wpe_inv hp hw hn fun _ _ _ _ => trivial) (fun _ _ h => h) fun _ _ _ => trivial

theorem quiet {p : Op α} (hp : p.run.Asks Quiet) : Runs U vmid p w fun _ t => Calmly w t :=
  keeping hp Calmly.refl fun _ _ _ _ hq hs hn => hs.trans (Calmly.next hq hn)

end Runs

theorem quiet_clusterVmMaps : clusterVmMaps.run.Asks Quiet := asks_clusterVmMaps ⟨rfl, rfl⟩

theorem quiet_requirePool (vmid : Nat) (pool : Text) : (requirePool vmid pool).run.Asks Quiet := by
  refine Prog.asks_bind quiet_clusterVmMaps fun maps => ?_
  split
  · trivial
  · exact asks_ite trivial trivial

/-- The configuration that is read is the VM's. -/
theorem runs_vmConfig (node : Text) :
    Runs U vmid (vmConfig node vmid) w fun c t => c.erase "digest".toList = w.config ∧ Calmly w t := by
  refine Runs.bind (L := fun v t => Calmly w t ∧ ∀ map, v = .obj map →
    (parseConfig map).erase "digest".toList = w.config)
    (Runs.call fun r t hn => ?_) ?_
  · have hcalm : Calmly w t := Calmly.next ⟨rfl, rfl⟩ hn
    cases r with
    | error e => exact Runs.throw
    | ok v =>
      refine Runs.pure ⟨hcalm, fun map hv => ?_⟩
      subst hv
      exact hn.2.2.2 rfl
  · rintro v t ⟨hcalm, hv⟩
    cases v with
    | obj map => exact Runs.pure ⟨hv map rfl, hcalm⟩
    | _ => exact Runs.throw

theorem runs_resolveExistingWorkspace (cfg : Config) :
    Runs U vmid (resolveExistingWorkspace cfg vmid) w fun info t =>
      info.vmConfig.erase "digest".toList = w.config ∧ Calmly w t := by
  unfold resolveExistingWorkspace
  refine Runs.guard fun _ => ?_
  refine Runs.bind (Runs.quiet (asks_clusterVmResources ⟨rfl, rfl⟩)) fun resources s hs => ?_
  split
  · exact Runs.throw
  · next resource _ =>
    refine Runs.guard fun _ => ?_
    have hstatus : (listedStatus resource resource.node vmid).run.Asks Quiet := by
      unfold listedStatus
      split
      · trivial
      · exact asks_vmStatus ⟨rfl, rfl⟩
    refine Runs.bind (Runs.quiet hstatus) fun status s' hs' => ?_
    refine Runs.bind (runs_vmConfig resource.node) fun c t ht => Runs.ofExcept fun info hinfo => ?_
    have hcalm := hs.trans hs'
    rw [workspaceOf_vmConfig hinfo]
    exact ⟨ht.1.trans hcalm.config, hcalm.trans ht.2⟩

/-! ## The change of the configuration -/

section Change

variable {cfg : Config} {plan : Json} {keys : List KeyRecord} {c : VmConfig}

/-- The configuration with the planned keys and the keep snippet. -/
def planned (cfg : Config) (plan : Json) (keys : List KeyRecord) (c : VmConfig) : VmConfig :=
  changed (keysForm cfg plan keys none) c

theorem changed_keysForm (digest : Option Text) :
    changed (keysForm cfg plan keys digest) c = planned cfg plan keys c := by
  unfold planned keysForm changed
  cases digest.filter fun d => !d.isEmpty with
  | none => rfl
  | some d =>
    change _ = List.foldl _ c (_ ++ [])
    rw [List.foldl_append, List.append_nil]
    rfl

theorem planned_sshkeys : (planned cfg plan keys c)["sshkeys".toList]? =
    if present plan then (c)["sshkeys".toList]? else some (writtenSshkeys keys) := by
  unfold planned
  rw [changed_getElem?]
  unfold keysForm
  cases present plan <;> cases keepSnippet plan <;> rfl

theorem planned_present (hpresent : present plan = true) (hkeep : keepSnippet plan = true) :
    planned cfg plan keys c = c := by
  unfold planned keysForm
  rw [hpresent, hkeep]
  rfl

/-- What a plan says about the configuration it was made for. -/
structure Planned (cfg : Config) (plan : Json) (vmid : Nat) (keys : List KeyRecord) (c : VmConfig) :
    Prop where
  ne : keys ≠ []
  canonical : ∀ record ∈ keys, record.Canonical
  present_iff : present plan = true ↔ sshkeysRecords vmid (option c "sshkeys") = .ok keys
  keep_iff : keepSnippet plan = true ↔ option c "cicustom" = cicustomValue cfg .keep

theorem sshkeysRecords_written (hne : keys ≠ []) (h : ∀ record ∈ keys, record.Canonical) :
    sshkeysRecords vmid (writtenSshkeys keys) = .ok keys :=
  sshkeysRecords_of_lines vmid hne h (lines_keyLine hne h).2

theorem Planned.records (h : Planned cfg plan vmid keys c) :
    sshkeysRecords vmid (option (planned cfg plan keys c) "sshkeys") = .ok keys := by
  unfold option
  rw [planned_sshkeys]
  cases hpresent : present plan with
  | true => exact h.present_iff.mp hpresent
  | false => exact sshkeysRecords_written h.ne h.canonical

/-- A change that was not made is noticed. -/
theorem Planned.eq_of_checked (h : Planned cfg plan vmid keys c)
    (hrecords : sshkeysRecords vmid (option c "sshkeys") = .ok keys)
    (hcicustom : option c "cicustom" = cicustomValue cfg .keep) : planned cfg plan keys c = c :=
  planned_present (h.present_iff.mpr hrecords) (h.keep_iff.mpr hcicustom)

theorem runs_setKeys (node : Text) (digest : Option Text) (h : Planned cfg plan vmid keys w.config) :
    Runs U vmid (setKeys cfg plan node vmid keys digest) w fun _ t =>
      t.config = planned cfg plan keys w.config ∧ t.booted = w.booted ∧ Unasked w t := by
  let form := keysForm cfg plan keys digest
  refine Runs.bind (L := fun _ t => (t.config = w.config ∨ t.config = planned cfg plan keys w.config) ∧
    t.booted = w.booted ∧ Unasked w t) ?_ ?_
  · -- each try makes the same change, or none
    have hasks := asks_postTask (P := fun q => Quiet q ∨ q = .post (.config node vmid) form)
      ⟨fun _ _ => .inl ⟨rfl, rfl⟩, fun _ _ _ => .inl ⟨rfl, rfl⟩, .inl ⟨rfl, rfl⟩⟩ (.inr rfl)
      ("Setting the SSH keys of VM " ++ Text.ofNat vmid) 600
    refine Runs.keeping hasks ⟨Or.inl rfl, rfl, Unasked.refl⟩ ?_
    rintro s q r t hq ⟨hconfig, hbooted, hlog⟩ hn
    rcases hq with hq | rfl
    · have hcalm := Calmly.next hq hn
      rw [hcalm.config, hcalm.booted]
      exact ⟨hconfig, hbooted, hlog.trans hcalm.log⟩
    · obtain ⟨-, hb, hc⟩ := id hn
      refine ⟨?_, hb.trans hbooted, hlog.trans (Unasked.next rfl hn)⟩
      have hsame : changed form s.config = planned cfg plan keys w.config := by
        rw [changed_keysForm]
        rcases hconfig with hconfig | hconfig
        · rw [hconfig]
        · rw [hconfig]
          exact changed_changed _ _
      rcases hc with hc | ⟨-, hc⟩
      · rw [hc]
        exact hconfig
      · exact Or.inr (hc.trans hsame)
  · rintro - s ⟨hconfig, hbooted, hlog⟩
    refine Runs.bind (runs_vmConfig node) fun written t ht => ?_
    have hwritten := ht.1
    have hcalm := ht.2
    generalize hread : sshkeysRecords vmid (option written "sshkeys") = read
    refine Runs.except fun records hrecords => ?_
    rw [← hread] at hrecords
    rw [option_erase_digest hwritten (by decide)] at hrecords
    refine Runs.guard fun hsame => Runs.pure ?_
    push Not at hsame
    obtain ⟨rfl, hcicustom⟩ := hsame
    have hcicustom : option s.config "cicustom" = cicustomValue cfg .keep := by
      rw [← option_erase_digest hwritten (by decide)]
      unfold option
      rw [hcicustom]
      rfl
    refine ⟨?_, hcalm.booted.trans hbooted, hlog.trans hcalm.log⟩
    rw [hcalm.config]
    rcases hconfig with hconfig | hconfig
    · rw [hconfig] at hrecords hcicustom ⊢
      exact (h.eq_of_checked hrecords hcicustom).symm
    · exact hconfig

theorem runs_configureKeys (node : Text) (digest : Option Text) (h : Planned cfg plan vmid keys w.config) :
    Runs U vmid (configureKeys cfg plan node vmid keys digest) w fun _ t =>
      t.config = planned cfg plan keys w.config ∧ t.booted = w.booted ∧ Unasked w t := by
  unfold configureKeys
  split
  · exact runs_setKeys node digest h
  · next hset =>
    push Not at hset
    refine Runs.pure ⟨(planned_present ?_ ?_).symm, rfl, Unasked.refl⟩
    · simpa using hset.1
    · simpa using hset.2

end Change

/-! ## The agent -/

/-- A ping of the run was answered in time. -/
def Answered (node : Text) (vmid : Nat) (log : History) : Prop :=
  ∃ later earlier n answer, n ≠ 0 ∧ log = later ++ ⟨.rounds, n⟩ :: ⟨ping node vmid, .ok answer⟩ :: earlier

/-- The answer to the read of a file. -/
def readOf (node : Text) (vmid : Nat) (path : Text) : Event Call Call.Answer → Option (Except PveError Json)
  | ⟨.get p query, r⟩ => if Call.get p query = fileRead node vmid path 0 fileLimit then some r else none
  | _ => none

/-- The answer to the last read of a file. -/
def lastRead (node : Text) (vmid : Nat) (path : Text) (log : History) : Option (Except PveError Json) :=
  log.findSome? (readOf node vmid path)

/-- The last read of the file showed every key. -/
def HasKeys (B : Base64) (node : Text) (vmid : Nat) (keys : List KeyRecord) (log : History) (path : Text) :
    Prop :=
  ∃ r bytes, lastRead node vmid path log = some r ∧ fileAnswer B vmid path r = .ok bytes ∧
    ∀ record ∈ keys, record.identity ∈ installedKeyIdentities ((bytes.map Bytes.fromUtf8Lossy).getD [])

/-- The last check found every key in the files of root and of the user. -/
def Found (B : Base64) (node : Text) (vmid : Nat) (user : Text) (keys : List KeyRecord) (log : History) :
    Prop :=
  HasKeys B node vmid keys log rootKeysFile ∧ HasKeys B node vmid keys log (userKeysFile user)

section Agent

variable {B : Base64} {node user path : Text} {keys : List KeyRecord} {log : History}

theorem Answered.append (h : Answered node vmid log) (new : History) : Answered node vmid (new ++ log) := by
  obtain ⟨later, earlier, n, answer, hn, rfl⟩ := h
  exact ⟨new ++ later, earlier, n, answer, hn, (List.append_assoc _ _ _).symm⟩

theorem not_answered (h : ∀ e ∈ log, asksAgent e.q = false) : ¬Answered node vmid log := by
  rintro ⟨later, earlier, n, answer, -, rfl⟩
  have := h ⟨ping node vmid, .ok answer⟩ (by simp)
  cases this

/-- A ping that failed or came too late was the only call to the agent. -/
theorem not_answered_ping (h : ∀ e ∈ log, asksAgent e.q = false) {n : Nat} {r : Except PveError Json}
    (hfailed : n = 0 ∨ ∃ e, r = .error e) : ¬Answered node vmid
    (⟨.rounds, n⟩ :: ⟨ping node vmid, r⟩ :: log) := by
  rintro ⟨later, earlier, m, answer, hm, heq⟩
  cases later with
  | nil =>
    rw [List.nil_append, List.cons.injEq, List.cons.injEq] at heq
    obtain ⟨hrounds, hping, -⟩ := heq
    cases hrounds
    cases hping
    rcases hfailed with rfl | ⟨e, he⟩
    · exact hm rfl
    · cases he
  | cons e later =>
    cases later with
    | nil =>
      rw [List.cons_append, List.nil_append, List.cons.injEq, List.cons.injEq] at heq
      exact nomatch heq.2.1
    | cons e' later =>
      rw [List.cons_append, List.cons_append, List.cons.injEq, List.cons.injEq] at heq
      refine not_answered h ⟨later, earlier, m, answer, hm, heq.2.2⟩

theorem readOf_ping (r : Except PveError Json) : readOf node vmid path ⟨ping node vmid, r⟩ = none := rfl

theorem readOf_unasked {e : Event Call Call.Answer} (h : asksAgent e.q = false) :
    readOf node vmid path e = none := by
  obtain ⟨q, r⟩ := e
  cases q with
  | get p query =>
    unfold readOf
    refine if_neg fun heq => ?_
    rw [show (⟨Call.get p query, r⟩ : Event Call Call.Answer).q = Call.get p query from rfl, heq] at h
    cases h
  | _ => rfl

theorem lastRead_unasked (h : ∀ e ∈ log, asksAgent e.q = false) : lastRead node vmid path log = none :=
  List.findSome?_eq_none_iff.mpr fun e he => readOf_unasked (h e he)

theorem not_found (h : lastRead node vmid rootKeysFile log = none) : ¬Found B node vmid user keys log := by
  rintro ⟨⟨r, bytes, hread, -⟩, -⟩
  rw [h] at hread
  cases hread

theorem missingKeys_eq_nil {text : Text} : missingKeys text keys = [] ↔
    ∀ record ∈ keys, record.identity ∈ installedKeyIdentities text := by
  unfold missingKeys
  rw [List.map_eq_nil_iff, List.filter_eq_nil_iff]
  simp

theorem paths_ne (user : Text) : rootKeysFile ≠ userKeysFile user := by
  intro h
  have hsecond : some 'r' = some 'h' := congrArg (fun path : Text => path[1]?) h
  exact absurd hsecond (by decide)

theorem readOf_self (r : Except PveError Json) :
    readOf node vmid path ⟨fileRead node vmid path 0 fileLimit, r⟩ = some r := by
  rw [readOf, if_pos rfl]

theorem readOf_other {other : Text} (hne : other ≠ path) (r : Except PveError Json) :
    readOf node vmid path ⟨fileRead node vmid other 0 fileLimit, r⟩ = none := by
  rw [readOf]
  refine if_neg fun heq => hne ?_
  simp only [Call.get.injEq, List.cons.injEq, Prod.mk.injEq] at heq
  exact heq.2.1.2

/-- One file is read, and what it lacks is told. -/
theorem runs_lostKeys : Runs U vmid (lostKeys B node vmid keys path) w fun lost t =>
    t.config = w.config ∧ t.booted = w.booted ∧ ∃ (r : Except PveError Json) (bytes : Option Bytes),
      t.log = ⟨fileRead node vmid path 0 fileLimit, r⟩ :: w.log ∧ fileAnswer B vmid path r = .ok bytes ∧
      (lost = [] → ∀ record ∈ keys, record.identity ∈ installedKeyIdentities
        ((bytes.map Bytes.fromUtf8Lossy).getD [])) := by
  refine Runs.bind (L := fun text t => t.config = w.config ∧ t.booted = w.booted ∧
    ∃ (r : Except PveError Json) (bytes : Option Bytes),
    t.log = ⟨fileRead node vmid path 0 fileLimit, r⟩ :: w.log ∧ fileAnswer B vmid path r = .ok bytes ∧
      text = bytes.map Bytes.fromUtf8Lossy) ?_ ?_
  · refine Runs.bind (L := fun bytes t => t.config = w.config ∧ t.booted = w.booted ∧
      ∃ r : Except PveError Json,
      t.log = ⟨fileRead node vmid path 0 fileLimit, r⟩ :: w.log ∧ fileAnswer B vmid path r = .ok bytes) ?_ ?_
    · refine Runs.call fun r t hn => Runs.ofExcept fun bytes hbytes => ?_
      obtain ⟨hconfig, hbooted⟩ := next_keeps rfl hn
      exact ⟨hconfig, hbooted, r, next_log hn, hbytes⟩
    · rintro bytes t ⟨hconfig, hbooted, r, hlog, hbytes⟩
      exact Runs.pure ⟨hconfig, hbooted, r, bytes, hlog, hbytes, rfl⟩
  · rintro text t ⟨hconfig, hbooted, r, bytes, hlog, hbytes, rfl⟩
    refine Runs.pure ⟨hconfig, hbooted, r, bytes, hlog, hbytes, fun hlost => ?_⟩
    exact missingKeys_eq_nil.1 (List.map_eq_nil_iff.mp hlost)

/-- `verify_keys` succeeds when the last reads show every key. -/
theorem runs_verifyKeys : Runs U vmid (verifyKeys B node vmid user keys) w fun _ t =>
    t.config = w.config ∧ t.booted = w.booted ∧ Found B node vmid user keys t.log ∧
      ∃ new, t.log = new ++ w.log := by
  refine Runs.bind runs_lostKeys ?_
  rintro root s ⟨hconfig, hbooted, r, bytes, hlog, hbytes, hroot⟩
  refine Runs.bind runs_lostKeys ?_
  rintro home t ⟨hconfig', hbooted', r', bytes', hlog', hbytes', hhome⟩
  refine Runs.guard fun hlost => Runs.pure ?_
  obtain ⟨hr, hh⟩ := List.append_eq_nil_iff.mp (not_not.mp hlost)
  rw [hlog] at hlog'
  refine ⟨hconfig'.trans hconfig, hbooted'.trans hbooted, ⟨?_, ?_⟩, [_, _], hlog'⟩
  · refine ⟨r, bytes, ?_, hbytes, hroot hr⟩
    rw [hlog', lastRead, List.findSome?_cons, readOf_other (paths_ne user).symm,
      List.findSome?_cons, readOf_self]
  · refine ⟨r', bytes', ?_, hbytes', hhome hh⟩
    rw [hlog', lastRead, List.findSome?_cons, readOf_self]

/-- A ping, and what followed it. -/
theorem runs_qgaPing : wpe (proxmox U vmid) (fun _ _ => True) (qgaPing node vmid) w
    (fun _ t => t.config = w.config ∧ t.booted = w.booted ∧ Answered node vmid t.log ∧
      ∃ new, t.log = new ++ w.log)
    fun _ t => t.config = w.config ∧ t.booted = w.booted ∧ ∃ n r,
      t.log = ⟨.rounds, n⟩ :: ⟨ping node vmid, r⟩ :: w.log ∧ (n = 0 ∨ ∃ e, r = .error e) := by
  refine wpe_bind.mpr (wpe_lift ⟨trivial, fun r s hs => ?_⟩)
  refine wpe_bind.mpr (wpe_lift ⟨trivial, fun n t ht => ?_⟩)
  obtain ⟨hconfig, hbooted⟩ := next_keeps rfl hs
  obtain ⟨hconfig', hbooted'⟩ := next_keeps rfl ht
  have hlog : t.log = ⟨.rounds, n⟩ :: ⟨ping node vmid, r⟩ :: w.log := by rw [next_log ht, next_log hs]
  rw [hconfig] at hconfig'
  rw [hbooted] at hbooted'
  change wpe _ _ (if n = 0 then _ else _) t _ _
  split
  · next hn => exact wpe_throw ⟨hconfig', hbooted', n, r, hlog, Or.inl hn⟩
  · next hn =>
    cases r with
    | error e => exact wpe_throw ⟨hconfig', hbooted', n, .error e, hlog, Or.inr ⟨e, rfl⟩⟩
    | ok answer =>
      exact wpe_pure ⟨hconfig', hbooted', ⟨[], w.log, n, answer, hn, hlog⟩, [_, _], hlog⟩

end Agent

/-! ## The steps of `add_key` -/

section Steps

variable {B : Base64} {parse : Text → Option Json} {node user : Text} {keys : List KeyRecord}

theorem agentCalls_keeps : AgentCalls fun q => keeps q = true :=
  ⟨fun _ _ _ _ => rfl, fun _ _ _ _ => rfl, rfl⟩

/-- Calls that keep the VM, after a ping that was answered. -/
theorem runs_keeping {α : Type} {p : Op α} (hp : p.run.Asks fun q => keeps q = true)
    (hw : Answered node vmid w.log) :
    Runs U vmid p w fun _ t => t.config = w.config ∧ t.booted = w.booted ∧ Answered node vmid t.log := by
  refine Runs.keeping hp ⟨rfl, rfl, hw⟩ ?_
  rintro s q r t hq ⟨hconfig, hbooted, hanswered⟩ hn
  obtain ⟨hc, hb⟩ := next_keeps hq hn
  refine ⟨hc.trans hconfig, hb.trans hbooted, ?_⟩
  rw [next_log hn]
  exact hanswered.append [_]

/-- The keys are in the guest, or nothing but a failed ping reached it. -/
structure Delivered (B : Base64) (node : Text) (vmid : Nat) (user : Text) (keys : List KeyRecord)
    (w t : Machine) (verified : Bool) : Prop where
  config : t.config = w.config
  found : verified = true → Found B node vmid user keys t.log ∧ Answered node vmid t.log
  waiting : verified = false → t.booted = w.booted ∧ ¬Found B node vmid user keys t.log ∧
    ¬Answered node vmid t.log

theorem runs_deliverNow (hw : ∀ e ∈ w.log, asksAgent e.q = false) (running : Bool) :
    Runs U vmid (deliverNow B node vmid user keys running) w fun r t =>
      Delivered B node vmid user keys w t r.2 := by
  unfold deliverNow
  cases running with
  | false =>
    refine Runs.pure ⟨rfl, (fun h => nomatch h), fun _ => ⟨rfl, ?_, not_answered hw⟩⟩
    exact not_found (lastRead_unasked hw)
  | true =>
    refine Runs.bind (L := fun note t => Delivered B node vmid user keys w t note.isNone) ?_ fun note t h =>
      Runs.pure h
    refine wpe_bind.mpr (wpe_attempt (wpe_mono runs_qgaPing ?_ ?_))
    · rintro - s ⟨hconfig, hbooted, hanswered, -⟩
      refine Runs.bind (runs_keeping (asks_guestExec agentCalls_keeps node vmid _ true _) hanswered) ?_
      rintro - s' ⟨hconfig', hbooted', hanswered'⟩
      refine Runs.bind runs_verifyKeys ?_
      rintro - t ⟨hconfig'', hbooted'', hfound, new, hnew⟩
      refine Runs.pure ⟨?_, fun _ => ⟨hfound, ?_⟩, (fun h => nomatch h)⟩
      · rw [hconfig'', hconfig', hconfig]
      · rw [hnew]
        exact hanswered'.append new
    · rintro e t ⟨hconfig, hbooted, n, r, hlog, hfailed⟩
      refine Runs.pure ⟨hconfig, (fun h => nomatch h), fun _ => ⟨hbooted, ?_, ?_⟩⟩
      · refine not_found ?_
        rw [hlog, lastRead, List.findSome?_cons, readOf_unasked rfl, List.findSome?_cons, readOf_ping]
        exact lastRead_unasked hw
      · rw [hlog]
        exact not_answered_ping hw hfailed

/-- A call that does not change the configuration. -/
def Leaves (q : Call) : Prop := keeps q = true ∨ ∃ node vmid form, q = .post (.statusStart node vmid) form

theorem leaves_config {q : Call} {r : q.Answer} (hq : Leaves q) (h : (proxmox U vmid).next w q r t) :
    t.config = w.config := by
  rcases hq with hq | ⟨node, v, form, rfl⟩
  · exact (next_keeps hq h).1
  · exact h.2.1

theorem runs_leaves {α : Type} {p : Op α} (hp : p.run.Asks Leaves) :
    Runs U vmid p w fun _ t => t.config = w.config :=
  Runs.keeping hp rfl fun _ _ _ _ hq hs hn => (leaves_config hq hn).trans hs

theorem powerCalls_leaves : PowerCalls Leaves node vmid :=
  ⟨⟨fun _ _ => .inl rfl, fun _ _ _ => .inl rfl, .inl rfl⟩, .inl rfl, .inl rfl,
    .inr ⟨_, _, _, rfl⟩, fun _ => .inl rfl⟩

/-- The agent answers a ping before its deadline. -/
theorem runs_pings (n timeoutSecs : Nat) (last : Option CoreError) :
    Runs U vmid (pings node vmid timeoutSecs n last) w fun _ t => t.config = w.config ∧
      Answered node vmid t.log := by
  induction n generalizing w last with
  | zero =>
    unfold pings
    cases last <;> exact Runs.throw
  | succ n ih =>
    refine wpe_bind.mpr (wpe_attempt (wpe_mono runs_qgaPing ?_ ?_))
    · rintro - t ⟨hconfig, -, hanswered, -⟩
      exact Runs.pure ⟨hconfig, hanswered⟩
    · rintro e t ⟨hconfig, -, -⟩
      refine wpe_mono (ih (some e)) ?_ fun _ _ h => h
      rintro - u ⟨hu, hanswered⟩
      exact ⟨hu.trans hconfig, hanswered⟩

theorem asks_waitCloudInitDone (B : Base64) (parse : Text → Option Json) (node : Text) (vmid : Nat) :
    (waitCloudInitDone B parse node vmid).run.Asks fun q => keeps q = true := by
  have hloop : ∀ n, (cloudInitResult B node vmid n).run.Asks fun q => keeps q = true := by
    intro n
    induction n with
    | zero =>
      refine Prog.asks_bind (asks_readText agentCalls_keeps B node vmid _) fun text => ?_
      cases text <;> trivial
    | succ n ih =>
      refine Prog.asks_bind (asks_readText agentCalls_keeps B node vmid _) fun text => ?_
      cases text with
      | some text => trivial
      | none => exact ih
  refine Prog.asks_bind (asks_call rfl) fun n => Prog.asks_bind (hloop n) fun result => ?_
  split <;> trivial

theorem runs_restartAndVerify : Runs U vmid (restartAndVerify B parse node vmid user keys) w fun _ t =>
    t.config = w.config ∧ Found B node vmid user keys t.log ∧ Answered node vmid t.log := by
  refine Runs.bind (runs_leaves (asks_shutdownVm powerCalls_leaves _)) fun _ s₁ h₁ => ?_
  refine Runs.bind (runs_leaves (asks_startVm powerCalls_leaves)) fun _ s₂ h₂ => ?_
  refine Runs.bind (L := fun _ t => t.config = w.config ∧ Answered node vmid t.log) ?_ ?_
  · refine Runs.call fun n s₃ hn => wpe_mono (runs_pings n _ none) ?_ fun _ _ h => h
    rintro - t ⟨hconfig, hanswered⟩
    refine ⟨?_, hanswered⟩
    rw [hconfig, (next_keeps rfl hn).1, h₂, h₁]
  · rintro - s₄ ⟨hconfig, hanswered⟩
    refine Runs.bind (runs_keeping (asks_waitCloudInitDone B parse node vmid) hanswered) ?_
    rintro - s₅ ⟨hconfig', -, hanswered'⟩
    refine wpe_mono runs_verifyKeys ?_ fun _ _ h => h
    rintro - t ⟨hconfig'', -, hfound, new, hnew⟩
    refine ⟨by rw [hconfig'', hconfig', hconfig], hfound, ?_⟩
    rw [hnew]
    exact hanswered'.append new

end Steps

/-! ## Plans -/

section Plans

variable {cfg : Config} {pool : Text} {request : AddkeyRequest} {plan : Json} {keys : List KeyRecord}

/-- What `plan_addkey` found. -/
structure Made (cfg : Config) (pool : Text) (request : AddkeyRequest) (plan : Json) (info : ExistingWorkspace)
    (keys existing : List KeyRecord) (present : Bool) : Prop where
  existing_eq : sshkeysRecords request.vmid (option info.vmConfig "sshkeys") = .ok existing
  ne : keys ≠ []
  canonical : ∀ record ∈ keys, record.Canonical
  present_iff : present = true ↔ existing = keys
  plan_eq : ∃ key ip, plan = planJson cfg pool request key info ip keys present

theorem plannedRecords_ok {vmid : Nat} {sshkeys : Text} {existing : List KeyRecord} {text : Option Text}
    {key : Option PublicKey} {present : Bool} (hexisting : sshkeysRecords vmid sshkeys = .ok existing)
    (hkey : text.mapM readPublicKey = .ok key) (h : plannedRecords vmid existing key = .ok (keys, present)) :
    keys ≠ [] ∧ (∀ record ∈ keys, record.Canonical) ∧ (present = true ↔ existing = keys) := by
  have hcanonical := sshkeysRecords_canonical hexisting
  cases key with
  | none =>
    simp only [plannedRecords] at h
    split at h
    · cases h
    · next hne =>
      cases h
      exact ⟨by simpa using hne, hcanonical, by simp⟩
  | some key =>
    have hread : ∃ t, readPublicKey t = .ok key := by
      cases text with
      | none => cases hkey
      | some t =>
        change (some <$> readPublicKey t) = .ok (some key) at hkey
        cases hk : readPublicKey t with
        | error e =>
          rw [hk] at hkey
          cases hkey
        | ok k =>
          rw [hk] at hkey
          cases hkey
          exact ⟨t, hk⟩
    obtain ⟨t, ht⟩ := hread
    injection h with h
    obtain ⟨hne, hmerged⟩ := mergeSshkeys_canonical hcanonical (readPublicKey_canonical ht)
    have hfst := @mergeSshkeys_fst existing key
    rw [h] at hne hmerged hfst
    dsimp only at hne hmerged hfst
    refine ⟨hne, hmerged, ?_⟩
    cases present with
    | true => simpa using hfst.symm
    | false => simp [hfst]

theorem made_of_ran {log log' : History} (h : Ran (planAddkey cfg pool request) log plan log') :
    ∃ info keys existing present, Made cfg pool request plan info keys existing present := by
  obtain ⟨key, _, hkey, h⟩ := Ran.bind h
  obtain ⟨_, _, -, h⟩ := Ran.bind h
  obtain ⟨info, _, -, h⟩ := Ran.bind h
  obtain ⟨⟨ip, cidr, gateway⟩, _, -, h⟩ := Ran.bind h
  obtain ⟨existing, _, hexisting, h⟩ := Ran.bind h
  obtain ⟨⟨keys, present⟩, _, hkeys, h⟩ := Ran.bind h
  obtain ⟨rfl, -⟩ := Ran.pure h
  have hkey := (ran_ofExcept hkey).1
  have hexisting := (ran_ofExcept hexisting).1
  obtain ⟨hne, hcanonical, hpresent⟩ := plannedRecords_ok hexisting hkey (ran_ofExcept hkeys).1
  exact ⟨info, keys, existing, present, hexisting, hne, hcanonical, hpresent, key, ip, rfl⟩

section Made

variable {info : ExistingWorkspace} {existing : List KeyRecord} {listed : Bool}

theorem Made.vmid_eq (h : Made cfg pool request plan info keys existing listed) {v : Nat}
    (hv : vmidOf plan = .ok v) :
    v = request.vmid := by
  obtain ⟨key, ip, rfl⟩ := h.plan_eq
  obtain ⟨n, hn, hv⟩ := Except.bind_ok hv
  have hn : n = request.vmid := by
    have hget : ((planJson cfg pool request key info ip keys listed).get "vmid").bind Json.asU64 =
      Json.asU64 (.int request.vmid) := rfl
    unfold number at hn
    rw [hget] at hn
    cases hu : Json.asU64 (.int request.vmid) with
    | none =>
      rw [hu] at hn
      cases hn
    | some m =>
      rw [hu] at hn
      cases hn
      simp only [Json.asU64] at hu
      split at hu
      · cases hu
        rfl
      · cases hu
  split at hv
  · cases hv
    exact hn
  · cases hv

theorem Made.plannedKeys_eq (h : Made cfg pool request plan info keys existing listed) :
    plannedKeys plan = .ok keys := by
  obtain ⟨key, ip, hplan⟩ := h.plan_eq
  have hget : plan.get "keys" = some (.arr (keys.map fun record => .str (keyLine record))) := by
    rw [hplan]
    rfl
  have hlines : (((plan.get "keys").bind Json.asArray).map (List.filterMap Json.asStr)).getD [] =
      keys.map keyLine := by
    rw [hget]
    change (keys.map fun record => Json.str (keyLine record)).filterMap Json.asStr = _
    rw [List.filterMap_map]
    exact congrFun (List.filterMap_eq_map (f := keyLine)) keys
  unfold plannedKeys
  dsimp only
  rw [hlines, if_neg (by simpa using h.ne), checkedRecords_of_lines h.ne h.canonical
    (lines_keyLine h.ne h.canonical).1]
  rfl

theorem requirePlanned_ok {vmid : Nat} {node status : Text} {info : ExistingWorkspace}
    (h : requirePlanned plan vmid node status info = .ok ()) :
    planText plan "original_cicustom" = .ok (option info.vmConfig "cicustom") ∧
      planText plan "original_sshkeys" = .ok (option info.vmConfig "sshkeys") := by
  unfold requirePlanned at h
  obtain ⟨-, h⟩ := Except.guard_ok h
  obtain ⟨-, h⟩ := Except.guard_ok h
  obtain ⟨cicustom, hcicustom, h⟩ := Except.bind_ok h
  obtain ⟨hsame, h⟩ := Except.guard_ok h
  obtain ⟨sshkeys, hsshkeys, h⟩ := Except.bind_ok h
  have hsame' : option info.vmConfig "sshkeys" = sshkeys := by
    by_contra hne
    rw [if_pos hne] at h
    cases h
  rw [hcicustom, hsshkeys, not_not.mp hsame, hsame']
  exact ⟨rfl, rfl⟩

/-- The plan is about the configuration that `add_key` found. -/
theorem Made.planned (h : Made cfg pool request plan info keys existing listed) {c : VmConfig}
    (hcicustom : planText plan "original_cicustom" = .ok (option c "cicustom"))
    (hsshkeys : planText plan "original_sshkeys" = .ok (option c "sshkeys")) :
      Planned cfg plan request.vmid keys c := by
  obtain ⟨key, ip, rfl⟩ := h.plan_eq
  injection hcicustom with hcicustom
  injection hsshkeys with hsshkeys
  refine ⟨h.ne, h.canonical, ?_, ?_⟩
  · rw [← hsshkeys, h.existing_eq, Except.ok.injEq]
    exact h.present_iff
  · rw [← hcicustom]
    exact decide_eq_true_iff

end Made

end Plans

/-! ## Every run -/

section Main

variable {B : Base64} {parse : Text → Option Json} {cfg : Config} {pool : Text} {request : AddkeyRequest}
  {plan : Json} {keys : List KeyRecord} {node : Text}

theorem runs_addKey {info : ExistingWorkspace} {existing : List KeyRecord} {listed : Bool}
    (h : Made cfg pool request plan info keys existing listed)
    (hnode : planText plan "node" = .ok node) (hlog : w.log = []) :
    Runs U request.vmid (addKey B parse cfg pool plan) w fun result t => ∃ s verified,
      result.get "verified" = some (.bool verified) ∧ Planned cfg plan request.vmid keys w.config ∧
        s.config = AddKey.planned cfg plan keys w.config ∧ s.booted = w.booted ∧
        Delivered B node request.vmid cfg.user.name keys s t verified := by
  have huser : planText plan "user" = .ok cfg.user.name := by
    obtain ⟨key, ip, rfl⟩ := h.plan_eq
    rfl
  refine Runs.except fun v hv => ?_
  obtain rfl := h.vmid_eq hv
  refine Runs.except fun node' hnode' => ?_
  obtain rfl : node = node' := Except.ok.inj (hnode.symm.trans hnode')
  refine Runs.except fun status _ => Runs.except fun user huser' => ?_
  obtain rfl : cfg.user.name = user := Except.ok.inj (huser.symm.trans huser')
  refine Runs.except fun keys' hkeys' => ?_
  obtain rfl : keys = keys' := Except.ok.inj (h.plannedKeys_eq.symm.trans hkeys')
  refine Runs.bind (runs_resolveExistingWorkspace cfg) ?_
  rintro current s₁ ⟨hconfig, hcalm₁⟩
  refine Runs.bind (Runs.quiet (quiet_requirePool _ pool)) fun _ s₂ hcalm₂ => ?_
  have hcalm := hcalm₁.trans hcalm₂
  refine Runs.except fun u hplanned => ?_
  have hplanned : Planned cfg plan request.vmid keys w.config := by
    obtain ⟨hcicustom, hsshkeys⟩ := requirePlanned_ok hplanned
    rw [option_erase_digest hconfig (by decide)] at hcicustom hsshkeys
    exact h.planned hcicustom hsshkeys
  refine Runs.bind (runs_configureKeys node _ (hcalm.config ▸ hplanned)) ?_
  rintro - s₃ ⟨hset, hbooted, hunasked⟩
  have hquiet : ∀ e ∈ s₃.log, asksAgent e.q = false := by
    obtain ⟨new, hnew, hall⟩ := hcalm.log.trans hunasked
    rw [hnew, hlog, List.append_nil]
    exact hall
  rw [hcalm.config] at hset
  rw [hcalm.booted] at hbooted
  refine Runs.bind (runs_deliverNow hquiet _) ?_
  rintro ⟨note, verified⟩ s₄ hdelivered
  dsimp only
  split
  · next hrestarted =>
    refine Runs.bind runs_restartAndVerify ?_
    rintro - t ⟨ht, hfound, hanswered⟩
    refine Runs.pure ⟨s₃, true, ?_, hplanned, hset, hbooted, ht.trans hdelivered.config,
      fun _ => ⟨hfound, hanswered⟩, nofun⟩
    rw [hrestarted, Bool.or_true]
    rfl
  · next hrestarted =>
    refine Runs.pure ⟨s₃, verified, ?_, hplanned, hset, hbooted, hdelivered⟩
    rw [Bool.eq_false_of_not_eq_true hrestarted, Bool.or_false]
    rfl

theorem addKey_done {info : ExistingWorkspace} {existing : List KeyRecord} {listed : Bool} {result : Json}
    (h : Made cfg pool request plan info keys existing listed)
    (hnode : planText plan "node" = .ok node) (hlog : w.log = [])
    (hrun : Exec (proxmox U request.vmid) (addKey B parse cfg pool plan).run w
      (some (.ok result)) t) : ∃ s verified,
      result.get "verified" = some (.bool verified) ∧ Planned cfg plan request.vmid keys w.config ∧
        s.config = AddKey.planned cfg plan keys w.config ∧ s.booted = w.booted ∧
        Delivered B node request.vmid cfg.user.name keys s t verified :=
  wpe_done (runs_addKey h hnode hlog) hrun

/-- **Where `add_key` delivers**: when it succeeds for a plan of `plan_addkey`, the VM's
`sshkeys` hold the planned keys, and `verified` tells whether the last check found
them in the guest. Otherwise they get there with the next start, which is so exactly
when the agent answered, or when the planned user-data is not the one that the guest
booted with. -/
theorem keys_delivered {log log' : History} (hplan : Ran (planAddkey cfg pool request) log plan log')
    (hnode : planText plan "node" = .ok node) (hkeys : plannedKeys plan = .ok keys)
    (hlog : w.log = []) {result : Json}
    (hrun : Exec (proxmox U request.vmid) (addKey B parse cfg pool plan).run w (some (.ok result)) t) :
    sshkeysRecords request.vmid (option t.config "sshkeys") = .ok keys ∧
      (result.get "verified" = some (.bool true) ↔ Found B node request.vmid cfg.user.name keys t.log) ∧
      (Found B node request.vmid cfg.user.name keys t.log ∨ U t.config ≠ t.booted ↔
        Answered node request.vmid t.log ∨ U (planned cfg plan keys w.config) ≠ w.booted) := by
  obtain ⟨info, keys', existing, listed, hmade⟩ := made_of_ran hplan
  obtain rfl : keys = keys' := Except.ok.inj (hkeys.symm.trans hmade.plannedKeys_eq)
  obtain ⟨s, verified, hverified, hplanned, hconfig, hbooted, hdelivered⟩ := addKey_done hmade hnode hlog hrun
  have hfinal : t.config = planned cfg plan keys w.config := hdelivered.config.trans hconfig
  have hrecords : sshkeysRecords request.vmid (option t.config "sshkeys") = .ok keys := by
    rw [hfinal]
    exact hplanned.records
  refine ⟨hrecords, ?_⟩
  rw [hverified]
  cases verified with
  | true =>
    obtain ⟨hfound, hanswered⟩ := hdelivered.found rfl
    exact ⟨iff_of_true rfl hfound, iff_of_true (Or.inl hfound) (Or.inl hanswered)⟩
  | false =>
    obtain ⟨hsame, hfound, hanswered⟩ := hdelivered.waiting rfl
    refine ⟨iff_of_false nofun hfound, ?_⟩
    rw [hfinal, hsame, hbooted]
    simp only [hfound, hanswered, false_or]

end Main

/-! ## A stopped VM whose key is listed already -/

/-- The user-data that Proxmox generates for a `ciuser` root. -/
def userData (c : VmConfig) : Text :=
  "#cloud-config\nhostname: " ++ option c "name" ++ "\nmanage_etc_hosts: true\nuser: " ++ option c "ciuser"
    ++ "\ndisable_root: False\nssh_authorized_keys:\n"
    ++ ((Text.lines (unquote (option c "sshkeys"))).flatMap fun key =>
      (("  - " : Text) ++ key ++ "\n" : Text))
    ++ "chpasswd:\n  expire: False\n"

def listedKey : KeyRecord := ⟨"ssh-rsa", "AAAA", "me", "me", "ssh-rsa AAAA"⟩

def stoppedEntries : List (Text × Json) :=
  [("name", .str "web"), ("tags", .str "homestack-ws"), ("scsi0", .str "local:vm-101-disk-0,size=8G"),
    ("scsi1", .str "local:vm-101-disk-1,serial=HS_HOME_101,size=32G"),
      ("ipconfig0", .str "ip=10.0.0.101/24,gw=10.0.0.1"),
    ("ciuser", .str "root"), ("ciupgrade", .str "0"),
      ("cicustom", .str "vendor=local:snippets/homestack-vendor-keep.yaml"),
    ("sshkeys", .str "ssh-rsa%20AAAA%20me%0A")]

def stoppedConfig : VmConfig := (parseConfig stoppedEntries).erase "digest".toList

/-- Reads are answered; nothing else is asked. -/
def stoppedAnswer : (q : Call) → q.Answer
  | .get .clusterResources _ =>
    .ok (.arr [.obj [("type", .str "qemu"), ("vmid", .int 101), ("node", .str "pve1"),
      ("status", .str "stopped"),
      ("pool", .str "homestack")]])
  | .get (.config ..) _ => .ok (.obj stoppedEntries)
  | .get .. => .ok .null
  | .post .. => .ok .null
  | .put .. => .ok .null
  | .delete .. => .ok .null
  | .rounds => 1
  | .running .. => false
  | .probe _ => .ok none
  | .uuid => []

def listedRequest : AddkeyRequest := ⟨101, some "ssh-rsa AAAA me", false⟩

def listedPlan : Json :=
  planJson sampleConfig "homestack" listedRequest (some ⟨"ssh-rsa", "AAAA", "me", "ssh-rsa AAAA me"⟩)
    ⟨101, "web", "pve1", "stopped", parseConfig stoppedEntries, some "local",
      some "local", "local:vm-101-disk-0",
      "local:vm-101-disk-1", "HS_HOME_101"⟩ "10.0.0.101" [listedKey] true

theorem listedPlan_ran :
    ∃ log, Ran (planAddkey sampleConfig "homestack" listedRequest) [] listedPlan log := by
  let g (h : History) (q : Call) : q.Answer × History := (stoppedAnswer q, ⟨q, stoppedAnswer q⟩ :: h)
  have hplays : ∃ log, Plays g (planAddkey sampleConfig "homestack" listedRequest) [] listedPlan log :=
    ⟨_, rfl⟩
  obtain ⟨log, hlog⟩ := hplays
  have hrun := exec_play (E := Prog.anything) (fun _ _ => rfl) (g := g)
    (planAddkey sampleConfig "homestack" listedRequest).run []
  rw [show play g _ _ = _ from hlog] at hrun
  exact ⟨log, hrun⟩

/-- The key is applied to the stopped VM, whatever it booted with. -/
theorem stopped_runs (U : VmConfig → Text) (booted : Text) : ∃ log,
    Exec (proxmox U 101) (addKey Base64.standard (fun _ => none) sampleConfig "homestack" listedPlan).run
      ⟨stoppedConfig, booted, []⟩ (some (.ok (resultJson listedPlan 101 none false false false)))
      ⟨stoppedConfig, booted, log⟩ := by
  let g (w : Machine) (q : Call) : q.Answer × Machine :=
    (stoppedAnswer q, { w with log := ⟨q, stoppedAnswer q⟩ :: w.log })
  have hplays : ∃ log, Plays g (addKey Base64.standard (fun _ => none) sampleConfig "homestack" listedPlan)
    ⟨stoppedConfig, booted, []⟩ (resultJson listedPlan 101 none false false false) ⟨stoppedConfig,
      booted, log⟩ := ⟨_, rfl⟩
  obtain ⟨log, hlog⟩ := hplays
  have hnext : ∀ (w : Machine) (q : Call), w.config = stoppedConfig →
      (proxmox U 101).next w q (g w q).1 (g w q).2 ∧ (g w q).2.config = stoppedConfig := by
    intro w q hw
    refine ⟨⟨rfl, ?_⟩, hw⟩
    cases q with
    | get path query =>
      cases path with
      | config node v => exact ⟨rfl, rfl, fun _ => hw.symm⟩
      | _ => exact fun _ => ⟨rfl, rfl⟩
    | post path form =>
      cases path with
      | config node v => exact ⟨rfl, Or.inl rfl⟩
      | statusStart node v => exact ⟨rfl, Or.inl rfl⟩
      | _ => exact fun _ => ⟨rfl, rfl⟩
    | _ => exact fun _ => ⟨rfl, rfl⟩
  have hrun := exec_play_inv (J := fun w : Machine => w.config = stoppedConfig) hnext
    (addKey Base64.standard (fun _ => none) sampleConfig "homestack" listedPlan).run
    (s := (⟨stoppedConfig, booted, []⟩ : Machine)) rfl
  rw [show play g _ _ = _ from hlog] at hrun
  exact ⟨log, hrun⟩

theorem listedPlan_keys : plannedKeys listedPlan = .ok [listedKey] := rfl

/-- A VM that never booted gets the key with its first start. -/
theorem keys_delivered_unbooted : ∃ log t,
    Ran (planAddkey sampleConfig "homestack" listedRequest) [] listedPlan log ∧
      Exec (proxmox userData 101) (addKey Base64.standard (fun _ => none) sampleConfig
        "homestack" listedPlan).run
        ⟨stoppedConfig, [], []⟩ (some (.ok (resultJson listedPlan 101 none false false false))) t ∧
      (Found Base64.standard "pve1" 101 "dev" [listedKey] t.log ∨ userData t.config ≠ t.booted) := by
  obtain ⟨log, hplan⟩ := listedPlan_ran
  obtain ⟨log', hrun⟩ := stopped_runs userData []
  have hnode : planText listedPlan "node" = .ok "pve1" := rfl
  have hboots : userData (planned sampleConfig listedPlan [listedKey] stoppedConfig) ≠ [] :=
    List.cons_ne_nil _ _
  exact ⟨log, _, hplan, hrun, (keys_delivered hplan hnode listedPlan_keys rfl hrun).2.2.mpr (Or.inr hboots)⟩

/-- A VM that booted with the listed key, and whose guest has lost it since, is told
to get it with its next start. Nothing starts a new instance there. -/
theorem listed_key_not_delivered : ∃ log t,
    Ran (planAddkey sampleConfig "homestack" listedRequest) [] listedPlan log ∧
      Exec (proxmox userData 101) (addKey Base64.standard (fun _ => none) sampleConfig
        "homestack" listedPlan).run
        ⟨stoppedConfig, userData stoppedConfig, []⟩
          (some (.ok (resultJson listedPlan 101 none false false false))) t ∧
      plannedKeys listedPlan = .ok [listedKey] ∧
      ¬(Found Base64.standard "pve1" 101 "dev" [listedKey] t.log ∨ userData t.config ≠ t.booted) := by
  obtain ⟨log, hplan⟩ := listedPlan_ran
  obtain ⟨log', hrun⟩ := stopped_runs userData (userData stoppedConfig)
  obtain ⟨info, keys, existing, listed, hmade⟩ := made_of_ran hplan
  obtain rfl : [listedKey] = keys := Except.ok.inj (listedPlan_keys.symm.trans hmade.plannedKeys_eq)
  have hnode : planText listedPlan "node" = .ok "pve1" := rfl
  have hlog : (⟨stoppedConfig, userData stoppedConfig, []⟩ : Machine).log = [] := rfl
  obtain ⟨s, verified, hverified, -, -, -, hdelivered⟩ := addKey_done hmade hnode hlog hrun
  refine ⟨log, _, hplan, hrun, listedPlan_keys, ?_⟩
  have hwaiting : verified = false := (Json.bool.inj (Option.some.inj hverified)).symm
  obtain ⟨-, hfound, -⟩ := hdelivered.waiting hwaiting
  rintro (h | h)
  · exact hfound h
  · exact h rfl

end HomeStack.AddKey
