import HomeStack.Lib.Prog

/-! Any number of programs that run interleaved over one shared state. Each
process is a program with an environment of its own over that state; the shared
state may also change by itself. The log has every question asked, with who
asked it and the shared state around it, newest first.

`Run.wp` carries a weakest precondition of each program over its own questions
along every interleaving, and `Step.asked` gives the guard at each question. -/

namespace Prog

namespace Pool

variable {ι Q σ α : Type} {A : Q → Type}

/-- A question of one process with its answer and the shared state around it. -/
structure Entry (ι Q : Type) (A : Q → Type) (σ : Type) where
  proc : ι
  event : Event Q A
  before : σ
  after : σ

structure State (ι Q : Type) (A : Q → Type) (σ α : Type) where
  shared : σ
  left : ι → Prog Q A α
  log : List (Entry ι Q A σ)

/-- How the processes see the shared state, and how it changes by itself. -/
structure World (ι Q : Type) (A : Q → Type) (σ : Type) where
  env : ι → Env Q A σ
  idle : σ → σ → Prop

variable [DecidableEq ι]

/-- What one process asked so far, newest first. -/
def own (i : ι) (log : List (Entry ι Q A σ)) : List (Event Q A) :=
  log.filterMap fun e => if e.proc = i then some e.event else none

theorem own_cons (i : ι) (e : Entry ι Q A σ) (log : List (Entry ι Q A σ)) :
    own i (e :: log) = if e.proc = i then e.event :: own i log else own i log := by
  unfold own
  rw [List.filterMap_cons]
  split <;> simp_all

theorem own_append (i : ι) (new log : List (Entry ι Q A σ)) : own i (new ++ log) = own i new ++ own i log :=
  List.filterMap_append

theorem mem_own {i : ι} {v : Event Q A} {log : List (Entry ι Q A σ)} :
    v ∈ own i log ↔ ∃ e ∈ log, e.proc = i ∧ e.event = v := by
  simp [own, List.mem_filterMap]

inductive Step (W : World ι Q A σ) : State ι Q A σ α → State ι Q A σ α → Prop
  | ask {s : State ι Q A σ α} {i : ι} {q : Q} {k : A q → Prog Q A α} {r : A q} {t : σ} :
      s.left i = .ask q k → (W.env i).next s.shared q r t →
      Step W s ⟨t, Function.update s.left i (k r), ⟨i, ⟨q, r⟩, s.shared, t⟩ :: s.log⟩
  | idle {s : State ι Q A σ α} {t : σ} : W.idle s.shared t → Step W s { s with shared := t }

/-- The state before anything was asked. -/
def start (p : ι → Prog Q A α) (s : σ) : State ι Q A σ α := ⟨s, p, []⟩

/-- Some interleaving leads from one state to the other. -/
def Run (W : World ι Q A σ) : State ι Q A σ α → State ι Q A σ α → Prop := Relation.ReflTransGen (Step W)

variable {W : World ι Q A σ}

/-- Every process still meets its guards, whatever the others did. -/
theorem Run.wp {p : ι → Prog Q A α} {s₀ : σ} {s : State ι Q A σ α} {I : ι → List (Event Q A) → Q → Prop}
    {post : ι → α → List (Event Q A) → Prop} (hp : ∀ i, Prog.wp anything (I i) (p i) [] (post i))
    (hr : Run W (start p s₀) s) : ∀ i, Prog.wp anything (I i) (s.left i) (own i s.log) (post i) := by
  induction hr with
  | refl => exact hp
  | tail _ hstep ih =>
    cases hstep with
    | @ask i q k r t hleft hnext =>
      intro j
      rw [own_cons]
      dsimp only
      by_cases hij : i = j
      · subst hij
        have hw := ih i
        rw [hleft] at hw
        rw [if_pos rfl, Function.update_self]
        exact hw.2 r _ rfl
      · rw [if_neg hij, Function.update_of_ne (Ne.symm hij)]
        exact ih j
    | idle h => exact ih

/-- The environment allowed every entry of the log. -/
theorem Run.next {p : ι → Prog Q A α} {s₀ : σ} {s : State ι Q A σ α} (hr : Run W (start p s₀) s) :
    ∀ e ∈ s.log, (W.env e.proc).next e.before e.event.q e.event.r e.after := by
  induction hr with
  | refl => exact fun e he => absurd he List.not_mem_nil
  | tail _ hstep ih =>
    cases hstep with
    | ask hleft hnext =>
      intro e he
      rcases List.mem_cons.mp he with rfl | he
      · exact hnext
      · exact ih e he
    | idle h => exact ih

/-- What every step keeps holds now, and held before each question. -/
theorem Run.always {p : ι → Prog Q A α} {s₀ : σ} {s : State ι Q A σ α} {J : σ → Prop}
    (hnext : ∀ {i x q r y}, J x → (W.env i).next x q r y → J y) (hidle : ∀ {x y}, J x →
      W.idle x y → J y) (h₀ : J s₀)
    (hr : Run W (start p s₀) s) : J s.shared ∧ ∀ e ∈ s.log, J e.before := by
  induction hr with
  | refl => exact ⟨h₀, fun e he => absurd he List.not_mem_nil⟩
  | tail _ hstep ih =>
    cases hstep with
    | ask hleft hn =>
      refine ⟨hnext ih.1 hn, fun e he => ?_⟩
      rcases List.mem_cons.mp he with rfl | he
      · exact ih.1
      · exact ih.2 e he
    | idle h => exact ⟨hidle ih.1 h, ih.2⟩

/-- A part of a process's questions that begins with a new one is new. -/
theorem own_later {i : ι} {new old : List (Entry ι Q A σ)} {later earlier : List (Event Q A)} {v : Event Q A}
    (h : own i (new ++ old) = later ++ v :: earlier) (hv : v ∉ own i old) : later ⊆ own i new := by
  rw [own_append] at h
  rcases List.append_eq_append_iff.mp h with ⟨l, h₁, -⟩ | ⟨l, h₁, h₂⟩
  · cases l with
    | nil => simp_all
    | cons w l => simp_all
  · rw [h₁]
    exact List.subset_append_left later l

/-- A run of the first part of one program alone is a run of the pool. -/
theorem Run.of_exec {β : Type} {F : Env Q A σ} {i : ι}
    (hF : ∀ {s q r t}, F.next s q r t → (W.env i).next s q r t) {p : Prog Q A β} {f : β → Prog Q A α}
    {o : Option β} {x t : σ} (hr : Exec F p x o t) {s : State ι Q A σ α} (hp : s.left i = p >>= f)
    (hx : s.shared = x) : ∃ s' : State ι Q A σ α, Run W s s' ∧ s'.shared = t ∧
      (∀ j ≠ i, s'.left j = s.left j) ∧ (∀ a, o = some a → s'.left i = f a) ∧
      ∀ e ∈ s'.log, e ∈ s.log ∨ (e.proc = i ∧ F.next e.before e.event.q e.event.r e.after) := by
  induction hr generalizing s with
  | stop p x => exact ⟨s, .refl, hx, fun _ _ => rfl, by simp, fun e he => Or.inl he⟩
  | done a x =>
    refine ⟨s, .refl, hx, fun _ _ => rfl, ?_, fun e he => Or.inl he⟩
    rintro b ⟨⟩
    exact hp
  | @step q k x x' t r o hn _ ih =>
    subst hx
    have hstep : Step W s ⟨x', Function.update s.left i (k r >>= f), ⟨i, ⟨q, r⟩, s.shared, x'⟩ :: s.log⟩ :=
      Step.ask hp (hF hn)
    obtain ⟨s', hrun, hshared, hother, hdone, hlog⟩ :=
      ih (s := ⟨x', Function.update s.left i (k r >>= f), ⟨i, ⟨q, r⟩, s.shared, x'⟩ :: s.log⟩)
        (Function.update_self ..) rfl
    refine ⟨s', Relation.ReflTransGen.head hstep hrun, hshared, fun j hj => ?_, hdone, fun e he => ?_⟩
    · rw [hother j hj]
      exact Function.update_of_ne hj _ _
    · rcases hlog e he with he | he
      · rcases List.mem_cons.mp he with rfl | he
        · exact Or.inr ⟨rfl, hn⟩
        · exact Or.inl he
      · exact Or.inr he

/-- The first part of one program, played alone. -/
theorem Run.of_play {β : Type} {i : ι} {g : σ → (q : Q) → A q × σ} {J : σ → Prop}
    (hg : ∀ s q, J s → (W.env i).next s q (g s q).1 (g s q).2 ∧ J (g s q).2)
    {p : Prog Q A β} {f : β → Prog Q A α} {b : β} {t : σ} {s : State ι Q A σ α}
    (hleft : s.left i = p >>= f) (hs : J s.shared) (hp : play g p s.shared = (b, t)) :
    ∃ s' : State ι Q A σ α, Run W s s' ∧ s'.shared = t ∧ (∀ j ≠ i, s'.left j = s.left j) ∧ s'.left i = f b ∧
      ∀ e ∈ s'.log, e ∈ s.log ∨ (e.proc = i ∧ e.event.r = (g e.before e.event.q).1) := by
  let F : Env Q A σ := ⟨fun s q r t => (W.env i).next s q r t ∧ r = (g s q).1⟩
  have hF : ∀ s q, J s → F.next s q (g s q).1 (g s q).2 ∧ J (g s q).2 :=
    fun s q h => ⟨⟨(hg s q h).1, rfl⟩, (hg s q h).2⟩
  have hexec : Exec F p s.shared (some (play g p s.shared).1) (play g p s.shared).2 := exec_play_inv hF p hs
  rw [hp] at hexec
  obtain ⟨s', hrun, hshared, hother, hdone, hlog⟩ :=
    Run.of_exec (W := W) (F := F) (i := i) (fun h => h.1) hexec hleft rfl
  refine ⟨s', hrun, hshared, hother, hdone _ rfl, fun e he => ?_⟩
  rcases hlog e he with he | ⟨hproc, hnext⟩
  · exact Or.inl he
  · exact Or.inr ⟨hproc, hnext.2⟩

section Fallible

variable {ε β γ : Type} {i : ι} {g : σ → (q : Q) → A q × σ} {J : σ → Prop} {x : ExceptT ε (Prog Q A) β}
  {t : σ} {s : State ι Q A σ (Except ε γ)}

/-- The first part of one fallible program, which plays. -/
theorem Run.of_plays (hg : ∀ s q, J s → (W.env i).next s q (g s q).1 (g s q).2 ∧ J (g s q).2)
    {f : β → ExceptT ε (Prog Q A) γ} {b : β} (hleft : s.left i = (x >>= f).run) (hs : J s.shared)
    (hx : Plays g x s.shared b t) : ∃ s' : State ι Q A σ (Except ε γ), Run W s s' ∧ s'.shared = t ∧
      (∀ j ≠ i, s'.left j = s.left j) ∧ s'.left i = (f b).run ∧
      ∀ e ∈ s'.log, e ∈ s.log ∨ (e.proc = i ∧ e.event.r = (g e.before e.event.q).1) := by
  have hrun := Run.of_play hg (hleft.trans (ExceptT.run_bind x f)) hs hx
  exact hrun

/-- The first part of one fallible program, which breaks. -/
theorem Run.of_breaks (hg : ∀ s q, J s → (W.env i).next s q (g s q).1 (g s q).2 ∧ J (g s q).2)
    {f : β → ExceptT ε (Prog Q A) γ} {e : ε} (hleft : s.left i = (x >>= f).run) (hs : J s.shared)
    (hx : Breaks g x s.shared e t) : ∃ s' : State ι Q A σ (Except ε γ), Run W s s' ∧ s'.shared = t ∧
      (∀ j ≠ i, s'.left j = s.left j) ∧ s'.left i = .pure (.error e) ∧
      ∀ e ∈ s'.log, e ∈ s.log ∨ (e.proc = i ∧ e.event.r = (g e.before e.event.q).1) := by
  have hrun := Run.of_play hg (hleft.trans (ExceptT.run_bind x f)) hs hx
  exact hrun

end Fallible

end Pool

end Prog
