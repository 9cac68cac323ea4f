import HomeStack.Vendor
import Mathlib.Logic.Relation

/-! The SSH host identity of a workspace over the runs of the vendor script on one
home: a copy of the host keys in the home, and `/etc/ssh` of whichever root boots.

Each command of the script may fail, and the script may stop after it. A copy that
fails, or that is cut off, leaves any part of its files. -/

namespace HomeStack.Vendor

open Prog (Env Exec wp wp_done wp_stop wpe wpe_bind wpe_mono wpe_guard wpe_lift wpe_inv
  asks_bind asks_lift asks_forM)
open Relation (ReflTransGen)

/-! ## The two directories -/

/-- Matches `ssh_host_*_key`. -/
def isPrivateKey (name : Text) : Bool :=
  match ("ssh_host_" : Text).isPrefixOf? name with
  | some rest => ("_key" : Text).isSuffixOf rest
  | none => false

/-- Matches `ssh_host_*_key.pub`. -/
def isPublicKey (name : Text) : Bool :=
  match ("ssh_host_" : Text).isPrefixOf? name with
  | some rest => ("_key.pub" : Text).isSuffixOf rest
  | none => false

def isHostKey (name : Text) : Bool := isPrivateKey name || isPublicKey name

/-- Files by name. -/
abbrev KeyDir := Text → Option Text

structure Host where
  /-- The home has a filesystem. -/
  formatted : Bool
  /-- `.homestack-ssh-host-keys` of the home, made by root. -/
  saved : Option KeyDir
  /-- `/etc/ssh` -/
  etc : KeyDir

/-- Some private key is there. -/
def HasPrivate (dir : KeyDir) : Prop := ∃ name, isPrivateKey name = true ∧ (dir name).isSome

/-- A complete key pair is there. -/
def HasPair (dir : KeyDir) : Prop :=
  ∃ name, isPrivateKey name = true ∧ isPublicKey (name ++ ".pub") = true ∧ (dir name).isSome ∧
    (dir (name ++ ".pub")).isSome

/-- Both patterns of a copy match. -/
def Sources (dir : KeyDir) : Prop := HasPrivate dir ∧ ∃ name, isPublicKey name = true ∧ (dir name).isSome

/-- `cp -p` of the host keys into a directory. -/
def copied (src dst : KeyDir) : KeyDir :=
  fun name => if isHostKey name && (src name).isSome then src name else dst name

/-- What a cut off removal leaves. -/
def Remains (dir dir' : KeyDir) : Prop := ∀ name, dir' name = none ∨ dir' name = dir name

/-- What a cut off copy leaves: some files, some of them in part. -/
def Torn (src dst dst' : KeyDir) : Prop :=
  ∀ name, dst' name = dst name ∨ isHostKey name = true ∧ (src name).isSome ∧ (dst' name).isSome

/-! ## Commands -/

/-- A command that succeeds. A copy needs a match of both patterns. -/
def Change.HostDone (h : Host) : Change → Host → Prop
  | .mkfs _ _, h' => h' = { h with formatted := true, saved := none }
  | .removeRootHostKeys, h' => h' = { h with etc := fun name => if isHostKey name then none else h.etc name }
  | .restoreHostKeys, h' => ∃ dir, h.saved = some dir ∧ Sources dir ∧ h' = { h with etc := copied dir h.etc }
  | .removeHostKeys, h' => h' = { h with saved := none }
  | .installHostKeys, h' => h' = { h with saved := some (h.saved.getD fun _ => none) }
  | .saveHostKeys, h' => ∃ dir, h.saved = some dir ∧ Sources h.etc ∧
      h' = { h with saved := some (copied h.etc dir) }
  | _, h' => h' = h

/-- A command that fails; `torn`: a copy into the home may leave a part. -/
def Change.HostFailed (torn : Bool) (h : Host) : Change → Host → Prop
  | .removeRootHostKeys, h' => ∃ etc, Remains h.etc etc ∧ h' = { h with etc }
  | .restoreHostKeys, h' => ∃ dir etc, h.saved = some dir ∧ Torn dir h.etc etc ∧ h' = { h with etc }
  | .removeHostKeys, h' => ∃ dir dir', h.saved = some dir ∧ Remains dir dir' ∧
      h' = { h with saved := some dir' }
  | .saveHostKeys, h' =>
    ∃ dir dir', torn = true ∧ h.saved = some dir ∧ Torn h.etc dir dir' ∧ h' = { h with saved := some dir' }
  | _, _ => False

/-- The host keys as the script sees and changes them. Other reports are free,
other commands leave them alone. -/
def host (torn : Bool) : Env Cmd Cmd.Answer Host where
  next h q r h' :=
    match q, r with
    | .ask (.blkidType _), r => (r = [] ↔ h.formatted = false) ∧ h' = h
    | .ask .hostKeysSaved, r => (r = true ↔ ∃ dir, h.saved = some dir ∧ HasPrivate dir) ∧ h' = h
    | .ask _, _ => h' = h
    | .change c, true => c.HostDone h h'
    | .change c, false => h' = h ∨ c.HostDone h h' ∨ c.HostFailed torn h h'

/-- Nothing disturbs the run: a command that can succeed does. -/
def undisturbed : Env Cmd Cmd.Answer Host where
  next h q r h' :=
    (host true).next h q r h' ∧
      match q, r with
      | .ask _, _ => True
      | .change c, r => (∃ h'', c.HostDone h h'') → r = true

/-! ## What holds between the runs -/

/-- No saved private key: the keys of the root are the identity to save. -/
def NoneSaved (saved : Option KeyDir) : Prop := ∀ dir, saved = some dir → ¬HasPrivate dir

/-- A saved identity is complete; without one the root has its own. -/
structure Host.Inv (h : Host) : Prop where
  blank : h.formatted = false → h.saved = none
  identity : (∃ dir, h.saved = some dir ∧ HasPair dir) ∨ NoneSaved h.saved ∧ HasPair h.etc

/-- The identity `K` is saved. -/
structure Host.Keeps (K : KeyDir) (h : Host) : Prop where
  formatted : h.formatted = true
  saved : ∃ dir, h.saved = some dir ∧ HasPair dir ∧ ∀ name, isHostKey name = true → dir name = K name

theorem HasPair.sources {dir : KeyDir} (h : HasPair dir) : Sources dir := by
  obtain ⟨name, hprivate, hpublic, hname, hpub⟩ := h
  exact ⟨⟨name, hprivate, hname⟩, name ++ ".pub", hpublic, hpub⟩

theorem HasPair.private {dir : KeyDir} (h : HasPair dir) : HasPrivate dir := h.sources.1

theorem isHostKey_of_private {name : Text} (h : isPrivateKey name = true) : isHostKey name = true := by
  simp [isHostKey, h]

theorem isHostKey_of_public {name : Text} (h : isPublicKey name = true) : isHostKey name = true := by
  simp [isHostKey, h]

theorem HasPair.copied {src : KeyDir} (h : HasPair src) (dst : KeyDir) : HasPair (copied src dst) := by
  obtain ⟨name, hprivate, hpublic, hname, hpub⟩ := h
  refine ⟨name, hprivate, hpublic, ?_, ?_⟩
  · unfold Vendor.copied
    rw [isHostKey_of_private hprivate, hname]
    exact hname
  · unfold Vendor.copied
    rw [isHostKey_of_public hpublic, hpub]
    exact hpub

theorem noneSaved_none : NoneSaved none := by
  intro dir h
  cases h

theorem NoneSaved.remains {dir dir' : KeyDir} (h : NoneSaved (some dir)) (hr : Remains dir dir') :
    NoneSaved (some dir') := by
  rintro found hfound ⟨name, hprivate, hname⟩
  cases hfound
  rcases hr name with hnone | hsame
  · rw [hnone] at hname
    cases hname
  · rw [hsame] at hname
    exact h dir rfl ⟨name, hprivate, hname⟩

/-! ## One run -/

section Specs

variable {torn : Bool} {J : Host → Prop} {h : Host}

/-- Every command of a run is asked in a state with `J`. -/
abbrev Always (J : Host → Prop) : Host → Cmd → Prop := fun h _ => J h

/-- A command under `set -e`. -/
theorem exec_host {E : Env Cmd Cmd.Answer Host} {c : Change} {K : Unit → Host → Prop} (hJ : J h)
    (hdone : ∀ h', E.next h (.change c) true h' → K () h')
    (hfail : ∀ h', E.next h (.change c) false h' → J h') :
    wpe E (Always J) (exec c) h K fun _ h' => J h' := by
  unfold exec attempt
  refine wpe_bind.mpr (wpe_lift ⟨hJ, fun r h' hn => ?_⟩)
  cases r with
  | true => exact hdone h' hn
  | false => exact hfail h' hn

theorem ask_host {E : Env Cmd Cmd.Answer Host} {a : Ask} {K : (Cmd.ask a).Answer → Host → Prop} (hJ : J h)
    (hr : ∀ r h', E.next h (.ask a) r h' → K r h') : wpe E (Always J) (ask a) h K fun _ h' => J h' :=
  wpe_lift ⟨hJ, hr⟩

/-- With a saved identity the root gets exactly its keys. -/
theorem hostKeys_keeps {K : KeyDir} (hkeeps : h.Keeps K) (torn : Bool) :
    wpe (host torn) (Always (Host.Keeps K)) hostKeys h
      (fun _ h' => h'.Keeps K ∧ ∀ name, isHostKey name = true → h'.etc name = K name) fun _ h' =>
        h'.Keeps K := by
  obtain ⟨dir, hdir, hpair, hK⟩ := hkeeps.saved
  have hkeep : ∀ etc, Host.Keeps K { h with etc } := fun etc => ⟨hkeeps.formatted, dir, hdir, hpair, hK⟩
  unfold hostKeys
  refine wpe_bind.mpr (ask_host hkeeps fun r h₁ hn => ?_)
  obtain ⟨hsaved, rfl⟩ := hn
  cases r with
  | false => cases hsaved.mpr ⟨dir, hdir, hpair.private⟩
  | true =>
    refine wpe_bind.mpr (exec_host hkeeps (fun h₂ hn => ?_) fun h₂ hn => ?_)
    · cases hn
      refine wpe_bind.mpr (exec_host (hkeep _) (fun h₃ hn => ?_) fun h₃ hn => ?_)
      · obtain ⟨found, hfound, -, rfl⟩ := hn
        have hfound : found = dir := Option.some.inj (hfound.symm.trans hdir)
        subst hfound
        -- removed first, so a key that is not saved is gone
        have hetc : ∀ name, isHostKey name = true →
            copied found (fun name => if isHostKey name then none else h₁.etc name) name = K name := by
          intro name hname
          rw [← hK name hname]
          unfold copied
          cases hfile : found name with
          | none => simp [hname]
          | some text => simp [hname]
        refine exec_host (hkeep _) (fun h₄ hn => ?_) fun h₄ hn => ?_
        · cases hn
          exact ⟨hkeep _, hetc⟩
        · rcases hn with rfl | hn | hn
          · exact hkeep _
          · cases hn
            exact hkeep _
          · exact hn.elim
      · rcases hn with rfl | ⟨found, -, -, rfl⟩ | ⟨found, etc, -, -, rfl⟩ <;> exact hkeep _
    · rcases hn with rfl | rfl | ⟨etc, -, rfl⟩ <;> exact hkeep _

theorem Host.Keeps.inv {K : KeyDir} (hk : h.Keeps K) : h.Inv := by
  obtain ⟨dir, hdir, hpair, -⟩ := hk.saved
  refine ⟨fun hblank => ?_, Or.inl ⟨dir, hdir, hpair⟩⟩
  rw [hk.formatted] at hblank
  cases hblank

/-- The keys of the root are saved. -/
theorem keeps_saved (hformatted : h.formatted = true) (hetc : HasPair h.etc) :
    Host.Keeps h.etc { h with saved := some (copied h.etc fun _ => none) } := by
  refine ⟨hformatted, _, rfl, hetc.copied _, fun name hname => ?_⟩
  unfold copied
  cases hfile : h.etc name with
  | none => simp
  | some text => simp [hname]

theorem noneSaved_empty : NoneSaved (some fun _ => none) := by
  rintro dir hdir ⟨name, -, hname⟩
  cases hdir
  cases hname

/-- Without a saved identity the root's is saved. Only the home changes, and no
copy into it is torn. -/
theorem hostKeys_saves (hnone : NoneSaved h.saved) (hetc : HasPair h.etc) (hformatted : h.formatted = true) :
    wpe (host false) (Always Host.Inv) hostKeys h (fun _ h' => h'.Keeps h'.etc) fun _ h' => h'.Inv := by
  have hkeep : ∀ saved, NoneSaved saved → Host.Inv { h with saved } := by
    intro saved hnone
    refine ⟨fun hblank => ?_, Or.inr ⟨hnone, hetc⟩⟩
    rw [hformatted] at hblank
    cases hblank
  unfold hostKeys
  refine wpe_bind.mpr (ask_host (hkeep _ hnone) fun r h₁ hn => ?_)
  obtain ⟨hsaved, rfl⟩ := hn
  cases r with
  | true =>
    obtain ⟨dir, hdir, hprivate⟩ := hsaved.mp rfl
    exact absurd hprivate (hnone dir hdir)
  | false =>
    refine wpe_bind.mpr (exec_host (hkeep _ hnone) (fun h₂ hn => ?_) fun h₂ hn => ?_)
    · cases hn
      refine wpe_bind.mpr (exec_host (hkeep _ noneSaved_none) (fun h₃ hn => ?_) fun h₃ hn => ?_)
      · cases hn
        refine exec_host (hkeep _ noneSaved_empty) (fun h₄ hn => ?_) fun h₄ hn => ?_
        · obtain ⟨dir, hdir, -, rfl⟩ := hn
          cases hdir
          exact keeps_saved hformatted hetc
        · rcases hn with rfl | ⟨dir, hdir, -, rfl⟩ | ⟨dir, dir', htorn, -⟩
          · exact hkeep _ noneSaved_empty
          · cases hdir
            exact (keeps_saved hformatted hetc).inv
          · cases htorn
      · rcases hn with rfl | hn | hn
        · exact hkeep _ noneSaved_none
        · cases hn
          exact hkeep _ noneSaved_empty
        · exact hn.elim
    · rcases hn with rfl | rfl | ⟨dir, dir', hdir, hremains, rfl⟩
      · exact hkeep _ hnone
      · exact hkeep _ noneSaved_none
      · exact hkeep _ (NoneSaved.remains (hdir ▸ hnone) hremains)

/-- A run of this part that completes leaves the identity of the root saved. -/
theorem hostKeys_inv (hinv : h.Inv) (hformatted : h.formatted = true) :
    wpe (host false) (Always Host.Inv) hostKeys h (fun _ h' => h'.Keeps h'.etc) fun _ h' => h'.Inv := by
  rcases hinv.identity with ⟨dir, hdir, hpair⟩ | ⟨hnone, hetc⟩
  · have hkeeps : h.Keeps dir := ⟨hformatted, dir, hdir, hpair, fun _ _ => rfl⟩
    refine wpe_guard (wpe_mono (hostKeys_keeps hkeeps false) ?_ fun _ _ h => h.inv) fun _ _ h => h.inv
    rintro - h' ⟨hkeeps', hetc⟩
    obtain ⟨found, hfound, hpair', hK⟩ := hkeeps'.saved
    exact ⟨hkeeps'.formatted, found, hfound, hpair', fun name hname =>
      (hK name hname).trans (hetc name hname).symm⟩
  · exact hostKeys_saves hnone hetc hformatted

/-! ## The whole script -/

/-- Commands that have nothing to do with the host keys. -/
def Aside : Cmd → Prop
  | .change (.mkfs _ _) => False
  | .change .removeRootHostKeys => False
  | .change .restoreHostKeys => False
  | .change .removeHostKeys => False
  | .change .installHostKeys => False
  | .change .saveHostKeys => False
  | _ => True

theorem Aside.same {h h' : Host} {q : Cmd} {r : q.Answer} (hq : Aside q) (hn : (host torn).next h q r h') :
    h' = h := by
  cases q with
  | ask a =>
    cases a with
    | blkidType device => exact hn.2
    | hostKeysSaved => exact hn.2
    | _ => exact hn
  | change c =>
    cases c with
    | mkfs device label => exact hq.elim
    | removeRootHostKeys => exact hq.elim
    | restoreHostKeys => exact hq.elim
    | removeHostKeys => exact hq.elim
    | installHostKeys => exact hq.elim
    | saveHostKeys => exact hq.elim
    | _ =>
      cases r with
      | true => exact hn
      | false =>
        rcases hn with hn | hn | hn
        · exact hn
        · exact hn
        · exact hn.elim

/-- A part of the script beside the host keys. -/
theorem aside_bind {α β : Type} {x : Script β} {f : β → Script α} {K : α → Host → Prop}
    (hx : x.run.Asks Aside) (hJ : J h) (hf : ∀ b, wpe (host torn) (Always J) (f b) h K fun _ h' => J h') :
    wpe (host torn) (Always J) (x >>= f) h K fun _ h' => J h' := by
  refine wpe_bind.mpr (Prog.wpe_of_asks hx (fun _ _ => hJ) (fun q r s' hq hn => hq.same hn) hf fun _ => hJ)

theorem aside_exec {c : Change} (hc : Aside (.change c)) : (exec c).run.Asks Aside := by
  refine asks_bind (asks_lift ⟨hc, fun _ => trivial⟩) fun b => ?_
  cases b <;> trivial

theorem aside_ask (a : Ask) : (ask a).run.Asks Aside := asks_lift ⟨trivial, fun _ => trivial⟩

theorem aside_required (answer : Option Text) : (required answer).run.Asks Aside := by
  cases answer <;> trivial

theorem aside_mountHome (label : Text) : (mountHome label).run.Asks Aside := by
  unfold mountHome
  refine asks_bind (asks_lift ⟨trivial, fun _ => trivial⟩) fun _ => ?_
  refine asks_bind (aside_exec trivial) fun _ => asks_bind (aside_exec trivial) fun _ => ?_
  refine asks_bind (aside_exec trivial) fun _ => asks_bind (aside_exec trivial) fun _ => ?_
  refine asks_bind (aside_exec trivial) fun _ => asks_bind (aside_ask _) fun mounted => ?_
  cases mounted
  · exact aside_exec trivial
  · trivial

theorem aside_initHome (keys : Text) : (initHome keys).run.Asks Aside := by
  unfold initHome
  refine asks_bind (aside_exec trivial) fun _ => asks_bind (aside_exec trivial) fun _ => ?_
  refine asks_bind (aside_exec trivial) fun _ => asks_bind (aside_exec trivial) fun _ => ?_
  refine asks_bind (aside_exec trivial) fun _ => asks_bind (aside_exec trivial) fun _ => ?_
  exact aside_exec trivial

theorem aside_ensureKeyIn (dir : Dir) (key : Text) : (ensureKeyIn dir key).run.Asks Aside := by
  unfold ensureKeyIn
  split
  · trivial
  · refine asks_bind (aside_ask _) fun has => ?_
    cases has
    · exact aside_exec trivial
    · trivial

theorem aside_ensureKeysIn (keys : Text) (dir : Dir) : (ensureKeysIn keys dir).run.Asks Aside := by
  unfold ensureKeysIn
  refine asks_bind (aside_ask _) fun isDir => ?_
  cases isDir
  · trivial
  refine asks_bind (aside_ask _) fun owner => asks_bind (aside_required owner) fun _ => ?_
  refine asks_bind (aside_ask _) fun group => asks_bind (aside_required group) fun _ => ?_
  have htail : (do
      if (← ask (.tail dir)) ≠ [] then exec (.endLine dir)
      (keys.splitOn '\n').forM (ensureKeyIn dir) : Script Unit).run.Asks Aside := by
    refine asks_bind (aside_ask _) fun last => ?_
    split
    · exact asks_bind (aside_exec trivial) fun _ => asks_forM (aside_ensureKeyIn dir) _
    · exact asks_forM (aside_ensureKeyIn dir) _
  refine asks_bind (aside_exec trivial) fun _ => asks_bind (aside_ask _) fun isFile => ?_
  cases isFile
  · exact asks_bind (aside_exec trivial) fun _ => htail
  · exact htail

/-- Only a blank home is formatted, and a home that is used is formatted. -/
theorem prepareDisk_host (hJ : J h)
    (hmkfs : h.formatted = false → J { h with formatted := true, saved := none }) (format : HomeFormat)
    (device label : Text) {fstype : Text} (fslabel : Text) (hfstype : fstype = [] ↔ h.formatted = false) :
    wpe (host torn) (Always J) (prepareDisk format device label fstype fslabel) h
      (fun _ h' => J h' ∧ h'.formatted = true) fun _ h' => J h' := by
  unfold prepareDisk
  split
  · next hready =>
    refine ⟨hJ, ?_⟩
    rw [← Bool.not_eq_false, ← hfstype, hready.1]
    decide
  split
  · next hblank =>
    have hformatted := hfstype.mp hblank.1
    split
    · exact hJ
    refine aside_bind (aside_ask _) hJ fun children => ?_
    split
    · exact hJ
    refine aside_bind (aside_ask _) hJ fun signatures => ?_
    split
    · exact hJ
    refine exec_host hJ (fun h' hn => ?_) fun h' hn => ?_
    · cases hn
      exact ⟨hmkfs hformatted, rfl⟩
    · rcases hn with rfl | hn | hn
      · exact hJ
      · cases hn
        exact hmkfs hformatted
      · exact hn.elim
  · exact hJ

/-- A property of the host that the part about its keys and the formatting of a
blank home keep is kept by the script. -/
theorem runcmd_host {Q : Host → Prop} (hJ : J h)
    (hmkfs : ∀ h, J h → h.formatted = false → J { h with formatted := true, saved := none })
    (hkeys : ∀ h, J h → h.formatted = true →
      wpe (host torn) (Always J) hostKeys h (fun _ h' => J h' ∧ Q h') fun _ h' => J h')
        (format : HomeFormat) :
    wpe (host torn) (Always J) (runcmd format) h (fun _ h' => J h' ∧ Q h') fun _ h' => J h' := by
  have hlast : ∀ h, J h → Q h → wpe (host torn) (Always J)
      (do if ← ask .herdrService then exec .enableLinger : Script Unit) h (fun _ h' => J h' ∧
        Q h') fun _ h' => J h' := by
    intro h hJ hQ
    refine aside_bind (aside_ask _) hJ fun herdr => ?_
    cases herdr
    · exact ⟨hJ, hQ⟩
    · exact Prog.wpe_of_asks (aside_exec trivial) (fun _ _ => hJ)
        (fun q r s' hq hn => hq.same hn) (fun _ => ⟨hJ, hQ⟩)
        fun _ => hJ
  have hrest : ∀ (keys : Text) h, J h → h.formatted = true → wpe (host torn) (Always J)
      (do ensureKeysIn keys .root
          ensureKeysIn keys .home
          hostKeys
          if ← ask .herdrService then exec .enableLinger : Script Unit) h (fun _ h' => J h' ∧
            Q h') fun _ h' => J h' := by
    intro keys h hJ hformatted
    refine aside_bind (aside_ensureKeysIn _ _) hJ fun _ => aside_bind (aside_ensureKeysIn _ _) hJ fun _ => ?_
    refine wpe_bind.mpr (wpe_mono (hkeys h hJ hformatted) ?_ fun _ _ h => h)
    rintro - h' ⟨hJ', hQ'⟩
    exact hlast h' hJ' hQ'
  unfold runcmd
  refine aside_bind (aside_ask _) hJ fun accounts => ?_
  split
  · exact hJ
  refine aside_bind (aside_ask _) hJ fun rows => ?_
  split
  · next device label _ =>
    unfold setupHome
    refine wpe_bind.mpr (ask_host hJ fun fstype h₁ hn => ?_)
    obtain ⟨hfstype, rfl⟩ := hn
    refine aside_bind (aside_ask _) hJ fun fslabel => aside_bind (aside_ask _) hJ fun answer => ?_
    refine aside_bind (aside_required answer) hJ fun text => ?_
    dsimp only
    split
    · exact hJ
    refine wpe_bind.mpr (wpe_mono (prepareDisk_host hJ (hmkfs _ hJ) format device label fslabel hfstype) ?_
      fun _ _ h => h)
    rintro - h₂ ⟨hJ₂, hformatted⟩
    refine aside_bind (aside_mountHome label) hJ₂ fun _ => ?_
    split
    · exact aside_bind (aside_initHome _) hJ₂ fun _ => hrest _ _ hJ₂ hformatted
    · exact hrest _ _ hJ₂ hformatted
  · exact hJ

end Specs

/-! ## Runs over one home -/

/-- A run of the script, stopped anywhere, or a fresh root with its own keys. -/
inductive HostStep (torn : Bool) : Host → Host → Prop
  | run (format : HomeFormat) {h h' : Host} {o : Option (Except Nat Unit)} :
      Exec (host torn) (runcmd format).run h o h' → HostStep torn h h'
  | root {h : Host} (etc : KeyDir) : HasPair etc → HostStep torn h { h with etc }

theorem exec_always {E : Env Cmd Cmd.Answer Host} {J Q : Host → Prop} {p : Script Unit} {h h' : Host}
    {o : Option (Except Nat Unit)} (hp : wpe E (Always J) p h (fun _ h' => J h' ∧ Q h') fun _ h' => J h')
    (hr : Exec E p.run h o h') : J h' ∧ (o = some (.ok ()) → Q h') := by
  cases o with
  | none =>
    refine ⟨?_, fun h => nomatch h⟩
    rcases wp_stop hp hr with ⟨q, hJ⟩ | ⟨r, hpost⟩
    · exact hJ
    · cases r with
      | ok u => exact hpost.1
      | error e => exact hpost
  | some r =>
    have hpost := wp_done hp hr
    cases r with
    | ok u => exact ⟨hpost.1, fun _ => hpost.2⟩
    | error e => exact ⟨hpost, fun h => nomatch h⟩

theorem Host.Inv.formatted {h : Host} (hinv : h.Inv) (hblank : h.formatted = false) :
    Host.Inv { h with formatted := true, saved := none } := by
  refine ⟨(fun h => nomatch h), ?_⟩
  rcases hinv.identity with ⟨dir, hdir, -⟩ | ⟨-, hetc⟩
  · rw [hinv.blank hblank] at hdir
    cases hdir
  · exact Or.inr ⟨noneSaved_none, hetc⟩

/-- A run keeps the invariant, and saves the identity when it completes. -/
theorem run_inv {format : HomeFormat} {h h' : Host} {o : Option (Except Nat Unit)} (hinv : h.Inv)
    (hr : Exec (host false) (runcmd format).run h o h') : h'.Inv ∧ (o = some (.ok ()) → h'.Keeps h'.etc) := by
  have hkeys : ∀ h : Host, h.Inv → h.formatted = true →
      wpe (host false) (Always Host.Inv) hostKeys h (fun _ h' => h'.Inv ∧
        h'.Keeps h'.etc) fun _ h' => h'.Inv :=
    fun h hinv hformatted => wpe_mono (hostKeys_inv hinv hformatted)
      (fun _ _ hk => ⟨hk.inv, hk⟩) fun _ _ h => h
  exact exec_always (Q := fun h => h.Keeps h.etc)
    (runcmd_host hinv (fun _ hinv hblank => hinv.formatted hblank) hkeys format) hr

/-- A run keeps a saved identity, and restores it when it completes. -/
theorem run_keeps {torn : Bool} {format : HomeFormat} {K : KeyDir} {h h' : Host}
    {o : Option (Except Nat Unit)} (hkeeps : h.Keeps K) (hr : Exec (host torn) (runcmd format).run h o h') :
    h'.Keeps K ∧ (o = some (.ok ()) → ∀ name, isHostKey name = true → h'.etc name = K name) := by
  refine exec_always (runcmd_host hkeeps ?_ (fun h hkeeps _ => hostKeys_keeps hkeeps torn) format) hr
  intro h hkeeps hblank
  rw [hkeeps.formatted] at hblank
  cases hblank

theorem reaches_inv {h h' : Host} (hr : ReflTransGen (HostStep false) h h') (hinv : h.Inv) : h'.Inv := by
  induction hr with
  | refl => exact hinv
  | tail _ hstep ih =>
    cases hstep with
    | run format hr => exact (run_inv ih hr).1
    | root etc hetc => exact ⟨ih.blank, ih.identity.imp id fun hnone => ⟨hnone.1, hetc⟩⟩

theorem reaches_keeps {torn : Bool} {K : KeyDir} {h h' : Host}
    (hr : ReflTransGen (HostStep torn) h h') (hkeeps : h.Keeps K) :
    h'.Keeps K := by
  induction hr with
  | refl => exact hkeeps
  | tail _ hstep ih =>
    cases hstep with
    | run format hr => exact (run_keeps ih hr).1
    | root etc hetc => exact ⟨ih.formatted, ih.saved⟩

/-! ## A run that is not stopped -/

/-- The home as this part of the script finds it: a blank one was formatted. -/
def Host.ready (h : Host) : Host := if h.formatted then h else { h with formatted := true, saved := none }

theorem exec_undisturbed {c : Change} {h h' : Host} {K : Unit → Host → Prop} (hcan : c.HostDone h h')
    (hK : ∀ h', c.HostDone h h' → K () h') :
    wpe undisturbed (fun _ _ => True) (exec c) h K fun _ _ => False := by
  unfold exec attempt
  refine wpe_bind.mpr (wpe_lift ⟨trivial, fun r h' hn => ?_⟩)
  cases r with
  | true => exact hK h' hn.1
  | false => cases hn.2 ⟨_, hcan⟩

/-- Only what follows a command that succeeds. -/
theorem exec_undisturbed_of_done {c : Change} {h : Host} {K : Unit → Host → Prop}
    (hK : ∀ h', c.HostDone h h' → K () h') :
    wpe undisturbed (fun _ _ => True) (exec c) h K fun _ _ => True := by
  unfold exec attempt
  refine wpe_bind.mpr (wpe_lift ⟨trivial, fun r h' hn => ?_⟩)
  cases r with
  | true => exact hK h' hn.1
  | false => trivial

theorem hostKeys_undisturbed {h : Host} (hinv : h.Inv) :
    wpe undisturbed (fun _ _ => True) hostKeys h (fun _ h' => HasPair h'.etc) fun _ _ => False := by
  unfold hostKeys
  refine wpe_bind.mpr (wpe_lift ⟨trivial, fun r h₁ hn => ?_⟩)
  obtain ⟨⟨hsaved, rfl⟩, -⟩ := hn
  rcases hinv.identity with ⟨dir, hdir, hpair⟩ | ⟨hnone, hetc⟩
  · cases r with
    | false => cases hsaved.mpr ⟨dir, hdir, hpair.private⟩
    | true =>
      refine wpe_bind.mpr (exec_undisturbed rfl fun h₂ hn => ?_)
      cases hn
      refine wpe_bind.mpr (exec_undisturbed ⟨dir, hdir, hpair.sources, rfl⟩ fun h₃ hn => ?_)
      obtain ⟨found, hfound, -, rfl⟩ := hn
      have hfound : found = dir := Option.some.inj (hfound.symm.trans hdir)
      subst hfound
      refine exec_undisturbed rfl fun h₄ hn => ?_
      cases hn
      exact hpair.copied _
  · cases r with
    | true =>
      obtain ⟨dir, hdir, hprivate⟩ := hsaved.mp rfl
      exact absurd hprivate (hnone dir hdir)
    | false =>
      refine wpe_bind.mpr (exec_undisturbed rfl fun h₂ hn => ?_)
      cases hn
      refine wpe_bind.mpr (exec_undisturbed rfl fun h₃ hn => ?_)
      cases hn
      refine exec_undisturbed ⟨_, rfl, hetc.sources, rfl⟩ fun h₄ hn => ?_
      obtain ⟨dir, -, -, rfl⟩ := hn
      exact hetc

theorem undisturbed_total : undisturbed.Total := by
  intro h q
  cases q with
  | change c =>
    by_cases hcan : ∃ h', c.HostDone h h'
    · obtain ⟨h', hdone⟩ := hcan
      exact ⟨true, h', hdone, fun _ => rfl⟩
    · exact ⟨false, h, Or.inl rfl, fun h => absurd h hcan⟩
  | ask a =>
    cases a with
    | blkidType device =>
      cases hformatted : h.formatted with
      | false => exact ⟨([] : Text), h, ⟨by simp [hformatted], rfl⟩, trivial⟩
      | true => exact ⟨("ext4" : Text), h, ⟨by simp [hformatted], rfl⟩, trivial⟩
    | hostKeysSaved =>
      by_cases hsaved : ∃ dir, h.saved = some dir ∧ HasPrivate dir
      · exact ⟨true, h, ⟨by simpa using hsaved, rfl⟩, trivial⟩
      · exact ⟨false, h, ⟨by simpa using hsaved, rfl⟩, trivial⟩
    | accounts => exact ⟨([] : List Account), h, rfl, trivial⟩
    | lsblkSerials => exact ⟨([] : List (List Text)), h, rfl, trivial⟩
    | blkidLabel device => exact ⟨([] : Text), h, rfl, trivial⟩
    | wipefs device => exact ⟨([] : Text), h, rfl, trivial⟩
    | tail dir => exact ⟨([] : Text), h, rfl, trivial⟩
    | userdataKeys => exact ⟨(none : Option Text), h, rfl, trivial⟩
    | statOwner dir => exact ⟨(none : Option Text), h, rfl, trivial⟩
    | statGroup dir => exact ⟨(none : Option Text), h, rfl, trivial⟩
    | lsblkTypes device => exact ⟨(0 : Nat), h, rfl, trivial⟩
    | mountpoint => exact ⟨false, h, rfl, trivial⟩
    | isDir dir => exact ⟨false, h, rfl, trivial⟩
    | isFile dir => exact ⟨false, h, rfl, trivial⟩
    | awk dir id => exact ⟨false, h, rfl, trivial⟩
    | herdrService => exact ⟨false, h, rfl, trivial⟩

/-- This part completes with a complete key pair in `/etc/ssh` whenever nothing
disturbs it. -/
def Completes (h : Host) : Prop :=
  (∃ h', Exec undisturbed hostKeys.run h (some (.ok ())) h') ∧
    ∀ r h', Exec undisturbed hostKeys.run h (some r) h' → r = .ok () ∧ HasPair h'.etc

theorem completes {h : Host} (hinv : h.Inv) : Completes h := by
  have hall : ∀ r h', Exec undisturbed hostKeys.run h (some r) h' → r = .ok () ∧ HasPair h'.etc := by
    intro r h' hr
    have hpost := wp_done (hostKeys_undisturbed hinv) hr
    cases r with
    | ok u => exact ⟨rfl, hpost⟩
    | error e => exact hpost.elim
  obtain ⟨r, h', hr⟩ := Exec.exists undisturbed_total hostKeys.run h
  refine ⟨⟨h', ?_⟩, hall⟩
  rw [← (hall r h' hr).1]
  exact hr

/-- **A workspace keeps its SSH host identity** while no copy of the keys into the
home is torn: after a completed run every later completed run ends with exactly the
same host keys, and after any runs this part completes the next time it is not
disturbed. -/
theorem host_identity_kept {h₀ h₁ : Host} (hsaved : h₀.saved = none) (hetc : HasPair h₀.etc)
    (hreach : ReflTransGen (HostStep false) h₀ h₁) :
    (∀ format h₂, Exec (host false) (runcmd format).run h₁ (some (.ok ())) h₂ →
      ∀ h₃, ReflTransGen (HostStep false) h₂ h₃ →
      ∀ format' h₄, Exec (host false) (runcmd format').run h₃ (some (.ok ())) h₄ →
        ∀ name, isHostKey name = true → h₄.etc name = h₂.etc name) ∧
      Completes h₁.ready := by
  have hinv : h₁.Inv := by
    refine reaches_inv hreach ⟨fun _ => hsaved, Or.inr ⟨?_, hetc⟩⟩
    rw [hsaved]
    exact noneSaved_none
  constructor
  · intro format h₂ hr h₃ hreach' format' h₄ hr' name hname
    have hkeeps := (run_inv hinv hr).2 rfl
    exact (run_keeps (reaches_keeps hreach' hkeeps) hr').2 rfl name hname
  · apply completes
    unfold Host.ready
    cases hformatted : h₁.formatted with
    | true => exact hinv
    | false => exact hinv.formatted hformatted

/-- A root with one key pair. -/
def pairDir : KeyDir := fun name =>
  if name = "ssh_host_rsa_key" ∨ name = "ssh_host_rsa_key.pub" then some "key" else none

/-- A saving copy that ended after its first file. -/
def tornDir : KeyDir := fun name => if name = "ssh_host_rsa_key" then some "key" else none

theorem hasPair_pairDir : HasPair pairDir := ⟨"ssh_host_rsa_key", by decide⟩

theorem torn_pairDir : Torn pairDir (fun _ => none) tornDir := by
  intro name
  by_cases hname : name = "ssh_host_rsa_key"
  · subst hname
    exact Or.inr (by decide)
  · exact Or.inl (if_neg hname)

theorem exec_done_step {torn : Bool} {α : Type} {c : Change} {k : Bool → Prog Cmd Cmd.Answer α}
    {h h' t : Host} {o : Option α} (hdone : c.HostDone h h') (hr : Exec (host torn) (k true) h' o t) :
    Exec (host torn) (.ask (.change c) k) h o t := by
  have hn : (host torn).next h (.change c) true h' := hdone
  exact Exec.step hn hr

theorem exec_not_dir {torn : Bool} {α : Type} {dir : Dir} {k : Bool → Prog Cmd Cmd.Answer α} {h t : Host}
    {o : Option α} (hr : Exec (host torn) (k false) h o t) :
    Exec (host torn) (.ask (.ask (.isDir dir)) k) h o t := by
  have hn : (host torn).next h (.ask (.isDir dir)) false h := rfl
  exact Exec.step hn hr

/-- A run on a home that has its filesystem, up to the host keys. -/
theorem exec_keep {torn : Bool} {h h' : Host} {o : Option (Except Nat Unit)} (hformatted : h.formatted = true)
    (hr : Exec (host torn) (hostKeys >>= fun _ => ask .herdrService >>= fun linger =>
      if linger then exec .enableLinger else pure ()).run h o h') : Exec (host torn)
        (runcmd .keep).run h o h' := by
  refine Exec.step (r := ([⟨"user", "1000", "1000"⟩] : List Account)) rfl ?_
  refine Exec.step (r := ([["/dev/sdb", "HS_HOME_101"]] : List (List Text))) rfl ?_
  refine Exec.step (r := ("ext4" : Text)) ⟨by simp [hformatted], rfl⟩ ?_
  refine Exec.step (r := ("HS_HOME_101" : Text)) rfl ?_
  refine Exec.step (r := (some [] : Option Text)) rfl ?_
  refine exec_done_step rfl (exec_done_step rfl (exec_done_step rfl ?_))
  refine exec_done_step rfl (exec_done_step rfl (exec_done_step rfl ?_))
  have hmounted : (host torn).next h (.ask .mountpoint) true h := rfl
  exact Exec.step hmounted (exec_not_dir (exec_not_dir hr))

theorem exec_no_herdr {torn : Bool} {h : Host} : Exec (host torn) (ask .herdrService >>= fun linger =>
    if linger then exec .enableLinger else pure ()).run h (some (.ok ())) h := by
  have hno : (host torn).next h (.ask .herdrService) false h := rfl
  exact Exec.step hno (Exec.done _ _)

/-- A run that saves the keys of the root. -/
theorem exec_saves {torn : Bool} {etc : KeyDir} (hetc : HasPair etc) :
    Exec (host torn) (runcmd .keep).run ⟨true, none, etc⟩ (some (.ok ()))
      ⟨true, some (copied etc fun _ => none), etc⟩ := by
  refine exec_keep rfl ?_
  have hunsaved : (host torn).next ⟨true, none, etc⟩ (.ask .hostKeysSaved) false ⟨true, none, etc⟩ :=
    ⟨by simp, rfl⟩
  refine Exec.step hunsaved (exec_done_step rfl (exec_done_step rfl ?_))
  exact exec_done_step ⟨_, rfl, hetc.sources, rfl⟩ exec_no_herdr

/-- A run that gives the root the keys that are saved. -/
theorem exec_restores {torn : Bool} {dir etc : KeyDir} (hdir : HasPair dir) :
    Exec (host torn) (runcmd .keep).run ⟨true, some dir, etc⟩ (some (.ok ()))
      ⟨true, some dir, copied dir fun name => if isHostKey name then none else etc name⟩ := by
  refine exec_keep rfl ?_
  have hsaved : (host torn).next ⟨true, some dir, etc⟩ (.ask .hostKeysSaved) true ⟨true, some dir, etc⟩ :=
    ⟨by simpa using hdir.private, rfl⟩
  refine Exec.step hsaved (exec_done_step rfl (exec_done_step ⟨_, rfl, hdir.sources, rfl⟩ ?_))
  exact exec_done_step rfl exec_no_herdr

/-- Another root, with a key pair of its own. -/
def freshDir : KeyDir := fun name =>
  if name = "ssh_host_ed25519_key" ∨ name = "ssh_host_ed25519_key.pub" then some "other" else none

theorem hasPair_freshDir : HasPair freshDir := ⟨"ssh_host_ed25519_key", by decide⟩

/-- The keys that the first completed run has saved are those of the next root, whose own are gone. -/
theorem host_identity_kept_fresh :
    ∃ h₂ h₃ h₄, Exec (host false) (runcmd .keep).run ⟨true, none, pairDir⟩ (some (.ok ())) h₂ ∧
    h₃ = { h₂ with etc := freshDir } ∧ Exec (host false) (runcmd .keep).run h₃ (some (.ok ())) h₄ ∧
    h₄.etc "ssh_host_rsa_key" = some "key".toList ∧ h₄.etc "ssh_host_ed25519_key" = none ∧
    Completes (Host.ready ⟨true, none, pairDir⟩) := by
  have hfirst := @exec_saves false _ hasPair_pairDir
  have hlater := @exec_restores false _ freshDir (hasPair_pairDir.copied fun _ => none)
  have hroot := @HostStep.root false ⟨true, some (copied pairDir fun _ => none), pairDir⟩ freshDir
    hasPair_freshDir
  obtain ⟨hkept, hcompletes⟩ := @host_identity_kept ⟨true, none, pairDir⟩ _ rfl hasPair_pairDir .refl
  have hsame := hkept _ _ hfirst _ (.single hroot) _ _ hlater
  exact ⟨_, _, _, hfirst, rfl, hlater, hsame "ssh_host_rsa_key" (by decide),
    hsame "ssh_host_ed25519_key" (by decide), hcompletes⟩

/-- The home's disk is full when the keys are saved. -/
theorem save_torn : HostStep true ⟨true, none, pairDir⟩ ⟨true, some tornDir, pairDir⟩ := by
  refine HostStep.run .keep (o := some (.error 1)) (exec_keep rfl ?_)
  have hunsaved : (host true).next ⟨true, none, pairDir⟩ (.ask .hostKeysSaved) false
      ⟨true, none, pairDir⟩ := by
    exact ⟨by simp, rfl⟩
  refine Exec.step hunsaved (exec_done_step rfl (exec_done_step rfl ?_))
  have htorn : (host true).next ⟨true, some fun _ => none, pairDir⟩ (.change .saveHostKeys) false
      ⟨true, some tornDir, pairDir⟩ := Or.inr (Or.inr ⟨_, _, rfl, rfl, torn_pairDir, rfl⟩)
  exact Exec.step htorn (Exec.done _ _)

theorem not_sources_tornDir : ¬Sources tornDir := by
  rintro ⟨-, name, hpublic, hname⟩
  unfold tornDir at hname
  split at hname
  · next h =>
    subst h
    revert hpublic
    decide
  · cases hname

/-- Nothing can be restored from a torn copy. -/
theorem not_completes_torn {etc : KeyDir} : ¬Completes ⟨true, some tornDir, etc⟩ := by
  rintro ⟨⟨h', hr⟩, -⟩
  have hnever : wpe undisturbed (fun _ _ => True) hostKeys ⟨true, some tornDir, etc⟩ (fun _ _ => False)
      fun _ _ => True := by
    unfold hostKeys
    refine wpe_bind.mpr (wpe_lift ⟨trivial, fun r h₁ hn => ?_⟩)
    obtain ⟨⟨hsaved, rfl⟩, -⟩ := hn
    cases r with
    | false => cases hsaved.mpr ⟨tornDir, rfl, "ssh_host_rsa_key", by decide⟩
    | true =>
      refine wpe_bind.mpr (exec_undisturbed_of_done fun h₂ hn => ?_)
      cases hn
      refine wpe_bind.mpr (exec_undisturbed_of_done fun h₃ hn => ?_)
      obtain ⟨dir, hdir, hsources, -⟩ := hn
      cases hdir
      exact absurd hsources not_sources_tornDir
  exact wp_done hnever hr

/-- The saved directory of a root whose saving copy was cut off counts as an
identity, and no later root can be given one. -/
theorem host_identity_torn : HasPair pairDir ∧
    ReflTransGen (HostStep true) ⟨true, none, pairDir⟩ ⟨true, some tornDir, pairDir⟩ ∧
    ∀ etc, ¬Completes (Host.ready ⟨true, some tornDir, etc⟩) :=
  ⟨hasPair_pairDir, .single save_torn, fun _ => not_completes_torn⟩

end HomeStack.Vendor
