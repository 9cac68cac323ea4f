import Mathlib.Tactic

/-! Programs that ask an environment questions, and what can be said about all
their runs. A program is a tree of questions `Q`, each with a continuation for
every answer `A q`. An environment `Env` says which answers a question may get
in a state and which state follows; a run (`Exec`) may stop anywhere.

`wp E I p s post` holds when, in every run of `p` from `s`, the guard `I` holds
at every question asked and `post` holds of the result. It is computed from the
tree, so rules for `bind`, exceptions and subprograms compose. `wp_done`,
`wp_stop` and `wp_guarded` give back what it says about runs and histories. -/

/-- Programs over questions `Q` with answers `A`. -/
inductive Prog (Q : Type) (A : Q → Type) (α : Type) : Type
  | pure (a : α)
  | ask (q : Q) (k : A q → Prog Q A α)

namespace Prog

variable {Q : Type} {A : Q → Type} {α β σ τ : Type}

def bind (p : Prog Q A α) (f : α → Prog Q A β) : Prog Q A β :=
  match p with
  | .pure a => f a
  | .ask q k => .ask q fun r => (k r).bind f

instance : Monad (Prog Q A) where
  pure := .pure
  bind := bind

instance : LawfulMonad (Prog Q A) := LawfulMonad.mk' _
  (fun p => by
    induction p with
    | pure a => rfl
    | ask q k ih => exact congrArg (Prog.ask q) (funext ih))
  (fun _ _ => rfl)
  (fun p f g => by
    induction p with
    | pure a => rfl
    | ask q k ih => exact congrArg (Prog.ask q) (funext ih))

/-- Ask one question and return its answer. -/
def call (q : Q) : Prog Q A (A q) := .ask q .pure

/-! ## Environments and runs -/

/-- `next s q r t`: in state `s` the question `q` may get the answer `r`, and
the state is `t` afterwards. -/
structure Env (Q : Type) (A : Q → Type) (σ : Type) where
  next : σ → (q : Q) → A q → σ → Prop

/-- The environment that gives only the answers `P` allows. -/
def Env.allowing (E : Env Q A σ) (P : (q : Q) → A q → Prop) : Env Q A σ where
  next s q r t := E.next s q r t ∧ P q r

/-- Every question has an answer in every state. -/
def Env.Total (E : Env Q A σ) : Prop := ∀ s q, ∃ r t, E.next s q r t

/-- A run of a program: it may stop at any point (`none`) or end with its
result. -/
inductive Exec (E : Env Q A σ) : Prog Q A α → σ → Option α → σ → Prop
  | stop (p : Prog Q A α) (s : σ) : Exec E p s none s
  | done (a : α) (s : σ) : Exec E (.pure a) s (some a) s
  | step {q : Q} {k : A q → Prog Q A α} {s s' t : σ} {r : A q} {o : Option α} :
      E.next s q r s' → Exec E (k r) s' o t → Exec E (.ask q k) s o t

/-- Where every question has an answer, a program can be run to its end. -/
theorem Exec.exists {E : Env Q A σ} (hE : E.Total) (p : Prog Q A α) (s : σ) :
    ∃ a t, Exec E p s (some a) t := by
  induction p generalizing s with
  | pure a => exact ⟨a, s, Exec.done a s⟩
  | ask q k ih =>
    obtain ⟨r, s', hn⟩ := hE s q
    obtain ⟨a, t, hr⟩ := ih r s'
    exact ⟨a, t, Exec.step hn hr⟩

/-- Every run of the program from `s` meets the guard `I` at each question and
ends in `post`. -/
def wp (E : Env Q A σ) (I : σ → Q → Prop) (p : Prog Q A α) (s : σ) (post : α → σ → Prop) : Prop :=
  match p with
  | .pure a => post a s
  | .ask q k => I s q ∧ ∀ r s', E.next s q r s' → wp E I (k r) s' post

variable {E : Env Q A σ} {I : σ → Q → Prop}

theorem wp_done {p : Prog Q A α} {s t : σ} {a : α} {post : α → σ → Prop}
    (h : wp E I p s post) (hr : Exec E p s (some a) t) : post a t := by
  induction p generalizing s with
  | pure b => cases hr; exact h
  | ask q k ih =>
    cases hr with
    | step hn hr => exact ih _ (h.2 _ _ hn) hr

/-- A stopped run stands before a guarded question or at its end. -/
theorem wp_stop {p : Prog Q A α} {s t : σ} {post : α → σ → Prop}
    (h : wp E I p s post) (hr : Exec E p s none t) : (∃ q, I t q) ∨ ∃ a, post a t := by
  induction p generalizing s with
  | pure b => cases hr; exact Or.inr ⟨b, h⟩
  | ask q k ih =>
    cases hr with
    | stop => exact Or.inl ⟨q, h.1⟩
    | step hn hr => exact ih _ (h.2 _ _ hn) hr

theorem wp_bind {p : Prog Q A α} {f : α → Prog Q A β} {s : σ} {post : β → σ → Prop} :
    wp E I (p >>= f) s post ↔ wp E I p s fun a s' => wp E I (f a) s' post := by
  induction p generalizing s with
  | pure a => rfl
  | ask q k ih =>
    change (I s q ∧ ∀ r s', E.next s q r s' → wp E I (k r >>= f) s' post) ↔ _
    constructor
    · exact fun h => ⟨h.1, fun r s' hn => ih r |>.mp (h.2 r s' hn)⟩
    · exact fun h => ⟨h.1, fun r s' hn => ih r |>.mpr (h.2 r s' hn)⟩

theorem wp_mono {p : Prog Q A α} {s : σ} {post post' : α → σ → Prop}
    (h : wp E I p s post) (hp : ∀ a t, post a t → post' a t) : wp E I p s post' := by
  induction p generalizing s with
  | pure a => exact hp _ _ h
  | ask q k ih => exact ⟨h.1, fun r s' hn => ih r (h.2 r s' hn)⟩

theorem wp_call {q : Q} {s : σ} {post : A q → σ → Prop} (hI : I s q)
    (h : ∀ r s', E.next s q r s' → post r s') : wp E I (call q) s post := ⟨hI, h⟩

/-- A loop, by an invariant `J` that knows the elements done. -/
theorem wp_foldlM {f : β → α → Prog Q A β} {J : List α → β → σ → Prop} {l : List α} {b : β} {s : σ}
    (hf : ∀ done a rest b s, l = done ++ a :: rest → J done b s → wp E I (f b a) s (J (done ++ [a])))
    (hb : J [] b s) : wp E I (l.foldlM f b) s (J l) := by
  have hloop : ∀ rest done b s, l = done ++ rest → J done b s → wp E I (rest.foldlM f b) s (J l) := by
    intro rest
    induction rest with
    | nil =>
      intro done b s hl hJ
      rw [List.append_nil] at hl
      subst hl
      exact hJ
    | cons a rest ih =>
      intro done b s hl hJ
      rw [List.foldlM_cons, wp_bind]
      exact wp_mono (hf done a rest b s hl hJ) fun c t hc => ih (done ++ [a]) c t (by simp [hl]) hc
  exact hloop l [] b s rfl hb

theorem wp_and {J : σ → Q → Prop} {p : Prog Q A α} {s : σ} {post post' : α → σ → Prop} (h : wp E I p s post)
    (h' : wp E J p s post') : wp E (fun s q => I s q ∧ J s q) p s fun a t => post a t ∧ post' a t := by
  induction p generalizing s with
  | pure a => exact ⟨h, h'⟩
  | ask q k ih => exact ⟨⟨h.1, h'.1⟩, fun r s' hn => ih r (h.2 r s' hn) (h'.2 r s' hn)⟩

/-- Weakest preconditions carry over to an environment that a map of states
simulates. -/
theorem wp_map {F : Env Q A τ} {J : τ → Q → Prop} (f : τ → σ)
    (hn : ∀ {s q r s'}, F.next s q r s' → E.next (f s) q r (f s'))
    (hJ : ∀ {s q}, I (f s) q → J s q) {p : Prog Q A α} {s : τ} {post : α → σ → Prop}
    (h : wp E I p (f s) post) : wp F J p s fun a t => post a (f t) := by
  induction p generalizing s with
  | pure a => exact h
  | ask q k ih => exact ⟨hJ h.1, fun r s' hs => ih r (h.2 r _ (hn hs))⟩

/-! ## Fixed answers -/

/-- The result of a program when each question has one answer. -/
def eval (f : (q : Q) → A q) : Prog Q A α → α
  | .pure a => a
  | .ask q k => eval f (k (f q))

@[simp] theorem eval_bind (f : (q : Q) → A q) (p : Prog Q A α) (g : α → Prog Q A β) :
    eval f (p >>= g) = eval f (g (eval f p)) := by
  induction p with
  | pure a => rfl
  | ask q k ih => exact ih (f q)

/-- The whole run when each question has one answer in each state. -/
def play (step : σ → (q : Q) → A q × σ) : Prog Q A α → σ → α × σ
  | .pure a, s => (a, s)
  | .ask q k, s => play step (k (step s q).1) (step s q).2

theorem exec_play {g : σ → (q : Q) → A q × σ} (h : ∀ s q, E.next s q (g s q).1 (g s q).2)
    (p : Prog Q A α) (s : σ) : Exec E p s (some (play g p s).1) (play g p s).2 := by
  induction p generalizing s with
  | pure a => exact Exec.done a s
  | ask q k ih => exact Exec.step (h s q) (ih _ _)

/-- The same while an invariant of the states holds. -/
theorem exec_play_inv {g : σ → (q : Q) → A q × σ} {J : σ → Prop}
    (h : ∀ s q, J s → E.next s q (g s q).1 (g s q).2 ∧ J (g s q).2) (p : Prog Q A α) {s : σ} (hs : J s) :
    Exec E p s (some (play g p s).1) (play g p s).2 := by
  induction p generalizing s with
  | pure a => exact Exec.done a s
  | ask q k ih => exact Exec.step (h s q hs).1 (ih _ (h s q hs).2)

theorem play_bind (g : σ → (q : Q) → A q × σ) (p : Prog Q A α) (f : α → Prog Q A β) (s : σ) :
    play g (p >>= f) s = play g (f (play g p s).1) (play g p s).2 := by
  induction p generalizing s with
  | pure a => rfl
  | ask q k ih => exact ih _ _

/-! ## Questions a program can ask -/

/-- Every question the program can ask satisfies `P`. -/
def Asks (P : Q → Prop) : Prog Q A α → Prop
  | .pure _ => True
  | .ask q k => P q ∧ ∀ r, Asks P (k r)

theorem Asks.bind {P : Q → Prop} {p : Prog Q A α} {f : α → Prog Q A β}
    (h : p.Asks P) (hf : ∀ a, (f a).Asks P) : (p >>= f).Asks P := by
  induction p with
  | pure a => exact hf a
  | ask q k ih => exact ⟨h.1, fun r => ih r (h.2 r)⟩

theorem Asks.mono {P P' : Q → Prop} {p : Prog Q A α} (h : p.Asks P) (hP : ∀ q, P q → P' q) :
    p.Asks P' := by
  induction p with
  | pure a => trivial
  | ask q k ih => exact ⟨hP _ h.1, fun r => ih r (h.2 r)⟩

theorem asks_true (p : Prog Q A α) : p.Asks fun _ => True := by
  induction p with
  | pure a => trivial
  | ask q k ih => exact ⟨trivial, ih⟩

/-- A program whose questions leave the state alone ends in the state it began
in, with any result. -/
theorem wp_of_asks {P : Q → Prop} {p : Prog Q A α} {s : σ} {post : α → σ → Prop}
    (h : p.Asks P) (hI : ∀ q, P q → I s q)
    (hn : ∀ q r s', P q → E.next s q r s' → s' = s) (hp : ∀ a, post a s) : wp E I p s post := by
  induction p with
  | pure a => exact hp a
  | ask q k ih =>
    refine ⟨hI _ h.1, fun r s' hs => ?_⟩
    rw [hn _ _ _ h.1 hs]
    exact ih r (h.2 r)

/-- An invariant that every question the program can ask keeps. -/
theorem wp_inv {P : Q → Prop} {J : σ → Prop} {p : Prog Q A α} {s : σ} {post : α → σ → Prop}
    (h : p.Asks P) (hs : J s) (hn : ∀ s q r s', P q → J s → E.next s q r s' → J s')
    (hI : ∀ s q, P q → J s → I s q) (hp : ∀ a t, J t → post a t) : wp E I p s post := by
  induction p generalizing s with
  | pure a => exact hp a s hs
  | ask q k ih => exact ⟨hI s q h.1 hs, fun r s' hr => ih r (h.2 r) (hn s q r s' h.1 hs hr)⟩

/-- Every result of a program is that of a run. -/
theorem wp_self {P : Q → Prop} {p : Prog Q A α} {s : σ} (h : p.Asks P) (hI : ∀ s q, P q → I s q) :
    wp E I p s fun a t => Exec E p s (some a) t := by
  induction p generalizing s with
  | pure a => exact Exec.done a s
  | ask q k ih =>
    exact ⟨hI s q h.1, fun r s' hn => wp_mono (ih r (h.2 r)) fun a t hr => Exec.step hn hr⟩

theorem Exec.bind {p : Prog Q A α} {f : α → Prog Q A β} {s t : σ} {b : β}
    (h : Exec E (p >>= f) s (some b) t) :
    ∃ a s', Exec E p s (some a) s' ∧ Exec E (f a) s' (some b) t := by
  induction p generalizing s with
  | pure a => exact ⟨a, s, Exec.done a s, h⟩
  | ask q k ih =>
    cases h with
    | step hn hr =>
      obtain ⟨a, s', h₁, h₂⟩ := ih _ hr
      exact ⟨a, s', Exec.step hn h₁, h₂⟩

theorem Exec.after {p : Prog Q A α} {f : α → Prog Q A β} {s t u : σ} {a : α} {o : Option β}
    (hp : Exec E p s (some a) t) (hf : Exec E (f a) t o u) : Exec E (p >>= f) s o u := by
  induction p generalizing s with
  | pure b =>
    cases hp
    exact hf
  | ask q k ih =>
    cases hp with
    | step hn hr => exact Exec.step hn (ih _ hr)

/-! ## Histories -/

/-- A question with the answer it got. -/
structure Event (Q : Type) (A : Q → Type) where
  q : Q
  r : A q

/-- The environment that answers anything and writes the history down, newest
event first. -/
def anything : Env Q A (List (Event Q A)) where
  next h q r h' := h' = ⟨q, r⟩ :: h

/-- Every event of `new` was asked under the guard, given what came before. -/
def Guarded (I : List (Event Q A) → Q → Prop) : List (Event Q A) → List (Event Q A) → Prop
  | [], _ => True
  | e :: new, h => I (new ++ h) e.q ∧ Guarded I new h

theorem Guarded.append {I : List (Event Q A) → Q → Prop} {new h : List (Event Q A)}
    {e : Event Q A} (he : I h e.q) (hn : Guarded I new (e :: h)) : Guarded I (new ++ [e]) h := by
  induction new with
  | nil => exact ⟨he, trivial⟩
  | cons d new ih => exact ⟨by simpa using hn.1, ih hn.2⟩

/-- The history of a run extends the one it began with by guarded events. -/
theorem wp_guarded {I : List (Event Q A) → Q → Prop} {p : Prog Q A α} {h t : List (Event Q A)}
    {o : Option α} {post : α → List (Event Q A) → Prop} (hw : wp anything I p h post)
    (hr : Exec anything p h o t) : ∃ new, t = new ++ h ∧ Guarded I new h := by
  induction p generalizing h with
  | pure a => cases hr <;> exact ⟨[], rfl, trivial⟩
  | ask q k ih =>
    cases hr with
    | stop => exact ⟨[], rfl, trivial⟩
    | step hn hr =>
      cases hn
      obtain ⟨new, rfl, hg⟩ := ih _ (hw.2 _ _ rfl) hr
      exact ⟨new ++ [⟨q, _⟩], by simp, hg.append hw.1⟩

/-- A history only grows. -/
theorem Exec.grows {p : Prog Q A α} {h t : List (Event Q A)} {o : Option α} (hr : Exec anything p h o t) :
    ∃ new, t = new ++ h := by
  induction p generalizing h with
  | pure a => cases hr <;> exact ⟨[], rfl⟩
  | ask q k ih =>
    cases hr with
    | stop => exact ⟨[], rfl⟩
    | step hn hr =>
      cases hn
      obtain ⟨new, rfl⟩ := ih _ hr
      exact ⟨_, List.append_cons new _ h⟩

/-- What a run adds to the history are questions the program can ask. -/
theorem Exec.asked {P : Q → Prop} {p : Prog Q A α} {h t : List (Event Q A)} {o : Option α} (hp : p.Asks P)
    (hr : Exec anything p h o t) : ∃ new, t = new ++ h ∧ ∀ e ∈ new, P e.q := by
  induction p generalizing h with
  | pure a => cases hr <;> exact ⟨[], rfl, by simp⟩
  | ask q k ih =>
    cases hr with
    | stop => exact ⟨[], rfl, by simp⟩
    | step hn hr =>
      cases hn
      obtain ⟨new, rfl, hall⟩ := ih _ (hp.2 _) hr
      refine ⟨_, List.append_cons new _ h, fun e he => ?_⟩
      rcases List.mem_append.mp he with he | he
      · exact hall e he
      · rw [List.mem_singleton.mp he]
        exact hp.1

/-- Any split of a guarded history shows the guard at the split. -/
theorem Guarded.at {I : List (Event Q A) → Q → Prop} {after before h : List (Event Q A)}
    {e : Event Q A} (hg : Guarded I (after ++ e :: before) h) : I (before ++ h) e.q := by
  induction after with
  | nil => exact hg.1
  | cons d after ih => exact ih hg.2

/-- The environment that also writes down each question with the state it was
asked in, newest first. -/
def logged (E : Env Q A σ) : Env Q A (σ × List (σ × Q)) where
  next s q r t := E.next s.1 q r t.1 ∧ t.2 = (s.1, q) :: s.2

/-- Every question of a run was asked under the guard. -/
theorem wp_logged {p : Prog Q A α} {s t : σ} {log log' : List (σ × Q)} {o : Option α} {post : α → σ → Prop}
    (hw : wp E I p s post) (hr : Exec (logged E) p (s, log) o (t, log')) :
    Exec E p s o t ∧ ∀ e ∈ log', e ∈ log ∨ I e.1 e.2 := by
  induction p generalizing s log with
  | pure a => cases hr <;> exact ⟨by constructor, fun e he => Or.inl he⟩
  | ask q k ih =>
    cases hr with
    | stop => exact ⟨Exec.stop _ _, fun e he => Or.inl he⟩
    | @step _ _ _ s' _ r _ hn hr =>
      obtain ⟨s', log₁⟩ := s'
      obtain ⟨hn, hlog⟩ := hn
      obtain ⟨hrun, hall⟩ := ih r (hw.2 r s' hn) hr
      refine ⟨Exec.step hn hrun, fun e he => ?_⟩
      rcases hall e he with he | he
      · have he : e ∈ (s, q) :: log := hlog ▸ he
        rcases List.mem_cons.mp he with rfl | he
        · exact Or.inr hw.1
        · exact Or.inl he
      · exact Or.inr he

/-! ## Programs that can fail -/

section Fallible

variable {ε : Type}

/-- `wp` of a program that may end with an exception. -/
def wpe (E : Env Q A σ) (I : σ → Q → Prop) (p : ExceptT ε (Prog Q A) α) (s : σ)
    (K : α → σ → Prop) (X : ε → σ → Prop) : Prop :=
  wp E I p.run s fun r t =>
    match r with
    | .ok a => K a t
    | .error e => X e t

variable {K : α → σ → Prop} {X : ε → σ → Prop} {s : σ}

theorem wpe_pure {a : α} (h : K a s) :
    wpe E I (Pure.pure a : ExceptT ε (Prog Q A) α) s K X := h

theorem wpe_throw {e : ε} (h : X e s) : wpe E I (throw e : ExceptT ε (Prog Q A) α) s K X := h

/-- A result, without a question. -/
def ofExcept (r : Except ε α) : ExceptT ε (Prog Q A) α := ExceptT.mk (Pure.pure r)

theorem wpe_ofExcept {r : Except ε α} (ho : ∀ a, r = .ok a → K a s) (he : ∀ e, r = .error e → X e s) :
    wpe E I (ofExcept r) s K X := by
  cases r with
  | ok a => exact ho a rfl
  | error e => exact he e rfl

theorem wpe_bind {x : ExceptT ε (Prog Q A) β} {f : β → ExceptT ε (Prog Q A) α} :
    wpe E I (x >>= f) s K X ↔ wpe E I x s (fun b t => wpe E I (f b) t K X) X := by
  unfold wpe
  rw [ExceptT.run_bind, wp_bind]
  constructor
  · intro h
    refine wp_mono h fun r t hr => ?_
    cases r with
    | ok b => exact hr
    | error e => exact hr
  · intro h
    refine wp_mono h fun r t hr => ?_
    cases r with
    | ok b => exact hr
    | error e => exact hr

theorem wpe_mono {p : ExceptT ε (Prog Q A) α} {L : α → σ → Prop} {Y : ε → σ → Prop}
    (h : wpe E I p s K X) (ho : ∀ a t, K a t → L a t) (he : ∀ e t, X e t → Y e t) :
    wpe E I p s L Y := by
  refine wp_mono h fun r t hr => ?_
  cases r with
  | ok a => exact ho a t hr
  | error e => exact he e t hr

theorem wpe_and {J : σ → Q → Prop} {p : ExceptT ε (Prog Q A) α} {L : α → σ → Prop} {Y : ε → σ → Prop}
    (h : wpe E I p s K X) (h' : wpe E J p s L Y) :
    wpe E (fun s q => I s q ∧ J s q) p s (fun a t => K a t ∧ L a t) fun e t => X e t ∧ Y e t := by
  refine wp_mono (wp_and h h') fun r t hr => ?_
  cases r with
  | ok a => exact hr
  | error e => exact hr

theorem wpe_lift {p : Prog Q A α} (h : wp E I p s K) :
    wpe E I (liftM p : ExceptT ε (Prog Q A) α) s K X := by
  unfold wpe
  rw [ExceptT.run_liftM, map_eq_pure_bind, wp_bind]
  exact h

/-- Ask one question in a fallible program. -/
def request (q : Q) : ExceptT ε (Prog Q A) (A q) := liftM (call q)

theorem wpe_request {q : Q} {K : A q → σ → Prop} (hI : I s q) (h : ∀ r t, E.next s q r t → K r t) :
    wpe E I (request q) s K X := wpe_lift (wp_call hI h)

theorem wpe_request_bind {q : Q} {f : A q → ExceptT ε (Prog Q A) α} (hI : I s q)
    (h : ∀ r t, E.next s q r t → wpe E I (f r) t K X) : wpe E I (request q >>= f) s K X :=
  wpe_bind.2 (wpe_request hI h)

theorem wpe_ofExcept_bind {r : Except ε β} {f : β → ExceptT ε (Prog Q A) α}
    (ho : ∀ b, r = .ok b → wpe E I (f b) s K X) (he : ∀ e, r = .error e → X e s) :
    wpe E I (ofExcept r >>= f) s K X := wpe_bind.2 (wpe_ofExcept ho he)

theorem exec_request_bind {q : Q} {f : A q → ExceptT ε (Prog Q A) α} {r : A q} {t u : σ}
    {o : Option (Except ε α)} (hn : E.next s q r t) (h : Exec E (f r).run t o u) :
    Exec E (request q >>= f).run s o u := Exec.step hn h

/-- A weaker guard. -/
theorem wpe_guard {J : σ → Q → Prop} {p : ExceptT ε (Prog Q A) α} (h : wpe E I p s K X)
    (hJ : ∀ s q, I s q → J s q) : wpe E J p s K X :=
  wp_map id (fun hn => hn) (fun hI => hJ _ _ hI) h

theorem wpe_done {p : ExceptT ε (Prog Q A) α} (h : wpe E I p s K X) {a : α} {t : σ}
    (hr : Exec E p.run s (some (.ok a)) t) : K a t := by
  have hpost := wp_done h hr
  exact hpost

/-- The result of a program as a value, failure included. -/
def attempt (p : ExceptT ε (Prog Q A) α) : ExceptT ε (Prog Q A) (Except ε α) :=
  ExceptT.mk (p.run >>= fun r => Pure.pure (.ok r))

theorem wpe_attempt {p : ExceptT ε (Prog Q A) α} {K : Except ε α → σ → Prop}
    (h : wpe E I p s (fun a => K (.ok a)) fun e => K (.error e)) : wpe E I (attempt p) s K X := by
  unfold wpe attempt
  rw [ExceptT.run_mk, wp_bind]
  refine wp_mono h fun r t hr => ?_
  cases r with
  | ok a => exact hr
  | error e => exact hr

/-- The same program, its exceptions translated. -/
def mapError {ε' : Type} (f : ε → ε') (p : ExceptT ε (Prog Q A) α) : ExceptT ε' (Prog Q A) α :=
  ExceptT.mk (p.run >>= fun r => Pure.pure (r.mapError f))

theorem wpe_mapError {ε' : Type} {f : ε → ε'} {p : ExceptT ε (Prog Q A) α} {X : ε' → σ → Prop}
    (h : wpe E I p s K fun e => X (f e)) : wpe E I (mapError f p) s K X := by
  unfold wpe mapError
  rw [ExceptT.run_mk, wp_bind]
  refine wp_mono h fun r t hr => ?_
  cases r with
  | ok a => exact hr
  | error e => exact hr

/-- A loop, by an invariant `J` that knows the elements done. -/
theorem wpe_foldlM {f : β → α → ExceptT ε (Prog Q A) β} {J : List α → β → σ → Prop} {l : List α} {b : β}
    (hf : ∀ done a rest b s, l = done ++ a :: rest → J done b s → wpe E I (f b a) s (J (done ++ [a])) X)
    (hb : J [] b s) : wpe E I (l.foldlM f b) s (J l) X := by
  have hloop : ∀ rest done b s, l = done ++ rest → J done b s → wpe E I (rest.foldlM f b) s (J l) X := by
    intro rest
    induction rest with
    | nil =>
      intro done b s hl hJ
      rw [List.append_nil] at hl
      subst hl
      exact wpe_pure hJ
    | cons a rest ih =>
      intro done b s hl hJ
      rw [List.foldlM_cons, wpe_bind]
      refine wpe_mono (hf done a rest b s hl hJ) (fun c t hc => ?_) fun _ _ hX => hX
      exact ih (done ++ [a]) c t (by simp [hl]) hc
  exact hloop l [] b s rfl hb

theorem wpe_forM {f : α → ExceptT ε (Prog Q A) Unit} {J : σ → Prop} {l : List α}
    (hf : ∀ a ∈ l, ∀ s, J s → wpe E I (f a) s (fun _ => J) X) (hs : J s) :
    wpe E I (l.forM f) s (fun _ => J) X := by
  induction l generalizing s with
  | nil => exact hs
  | cons a l ih =>
    refine wpe_bind.2 (wpe_mono (hf a List.mem_cons_self s hs) (fun _ t ht => ?_) fun _ _ hX => hX)
    exact ih (fun b hb => hf b (List.mem_cons_of_mem _ hb)) ht

theorem wpe_of_asks {P : Q → Prop} {p : ExceptT ε (Prog Q A) α}
    (h : p.run.Asks P) (hI : ∀ q, P q → I s q)
    (hn : ∀ q r s', P q → E.next s q r s' → s' = s) (ho : ∀ a, K a s) (he : ∀ e, X e s) :
    wpe E I p s K X := by
  refine wp_of_asks h hI hn fun r => ?_
  cases r with
  | ok a => exact ho a
  | error e => exact he e

theorem wpe_inv {P : Q → Prop} {J : σ → Prop} {p : ExceptT ε (Prog Q A) α} (h : p.run.Asks P) (hs : J s)
    (hn : ∀ s q r s', P q → J s → E.next s q r s' → J s') (hI : ∀ s q, P q → J s → I s q) :
    wpe E I p s (fun _ t => J t) fun _ t => J t := by
  refine wp_inv h hs hn hI fun r t ht => ?_
  cases r with
  | ok a => exact ht
  | error e => exact ht

/-- The outcome of a fallible program when each question has one answer. -/
def outcome (f : (q : Q) → A q) (p : ExceptT ε (Prog Q A) α) : Except ε α := eval f p.run

theorem outcome_bind (f : (q : Q) → A q) (x : ExceptT ε (Prog Q A) β)
    (g : β → ExceptT ε (Prog Q A) α) :
    outcome f (x >>= g) = (outcome f x >>= fun b => outcome f (g b)) := by
  unfold outcome
  rw [ExceptT.run_bind, eval_bind]
  cases eval f x.run with
  | ok b => rfl
  | error e => rfl

theorem outcome_pure (f : (q : Q) → A q) (a : α) :
    outcome f (Pure.pure a : ExceptT ε (Prog Q A) α) = .ok a := rfl

theorem outcome_attempt (f : (q : Q) → A q) (p : ExceptT ε (Prog Q A) α) :
    outcome f (attempt p) = .ok (outcome f p) := by
  unfold outcome attempt
  rw [ExceptT.run_mk, eval_bind]
  rfl

/-- A fallible program ends well when each question has one answer in each
state. -/
def Plays (g : σ → (q : Q) → A q × σ) (p : ExceptT ε (Prog Q A) α) (s : σ) (a : α) (t : σ) : Prop :=
  play g p.run s = (.ok a, t)

section Plays

variable {g : σ → (q : Q) → A q × σ} {s t u : σ}

theorem Plays.pure (a : α) : Plays g (Pure.pure a : ExceptT ε (Prog Q A) α) s a s := rfl

theorem Plays.bind {x : ExceptT ε (Prog Q A) β} {f : β → ExceptT ε (Prog Q A) α} {b : β} {a : α}
    (hx : Plays g x s b t) (hf : Plays g (f b) t a u) : Plays g (x >>= f) s a u := by
  unfold Plays at hx hf ⊢
  rw [ExceptT.run_bind, play_bind, hx]
  exact hf

theorem Plays.guard {c : Prop} [Decidable c] {e : ε} {f : PUnit → ExceptT ε (Prog Q A) α} {a : α} (hc : ¬c)
    (hf : Plays g (f PUnit.unit) s a t) :
    Plays g (if c then MonadExcept.throw e >>= f else f PUnit.unit) s a t := by
  rw [if_neg hc]
  exact hf

theorem Plays.call (q : Q) :
    Plays g (liftM (Prog.call q) : ExceptT ε (Prog Q A) (A q)) s (g s q).1 (g s q).2 := rfl

theorem Plays.attempt {p : ExceptT ε (Prog Q A) α} {a : α} (h : Plays g p s a t) :
    Plays g (Prog.attempt p) s (.ok a) t := by
  unfold Plays Prog.attempt at *
  rw [ExceptT.run_mk, play_bind, h]
  rfl

/-- The same when it fails. -/
def Breaks (g : σ → (q : Q) → A q × σ) (p : ExceptT ε (Prog Q A) α) (s : σ) (e : ε) (t : σ) : Prop :=
  play g p.run s = (.error e, t)

theorem Breaks.bind {x : ExceptT ε (Prog Q A) β} {f : β → ExceptT ε (Prog Q A) α} {e : ε}
    (hx : Breaks g x s e t) :
    Breaks g (x >>= f) s e t := by
  unfold Breaks at hx ⊢
  rw [ExceptT.run_bind, play_bind, hx]
  rfl

theorem Breaks.after {x : ExceptT ε (Prog Q A) β} {f : β → ExceptT ε (Prog Q A) α} {b : β} {e : ε}
    (hx : Plays g x s b t) (hf : Breaks g (f b) t e u) : Breaks g (x >>= f) s e u := by
  unfold Plays at hx
  unfold Breaks at hf ⊢
  rw [ExceptT.run_bind, play_bind, hx]
  exact hf

/-- What the rest of a program may assume after a part that plays. -/
theorem wpe_after {I : σ → Q → Prop} {x : ExceptT ε (Prog Q A) β} {f : β → ExceptT ε (Prog Q A) α} {b : β}
    {K : α → σ → Prop} {X : ε → σ → Prop} (hE : ∀ s q, E.next s q (g s q).1 (g s q).2)
    (hw : wpe E I (x >>= f) s K X) (hx : Plays g x s b t) : wpe E I (f b) t K X := by
  have hrun := exec_play hE x.run s
  rw [show play g x.run s = (.ok b, t) from hx] at hrun
  have hpost := wp_done (wpe_bind.1 hw) hrun
  exact hpost

end Plays

theorem asks_bind {P : Q → Prop} {x : ExceptT ε (Prog Q A) β} {f : β → ExceptT ε (Prog Q A) α}
    (hx : x.run.Asks P) (hf : ∀ b, (f b).run.Asks P) : (x >>= f).run.Asks P := by
  rw [ExceptT.run_bind]
  refine Asks.bind hx fun r => ?_
  cases r with
  | ok b => exact hf b
  | error e => trivial

theorem asks_lift {P : Q → Prop} {p : Prog Q A α} (h : p.Asks P) :
    (liftM p : ExceptT ε (Prog Q A) α).run.Asks P := by
  rw [ExceptT.run_liftM, map_eq_pure_bind]
  exact Asks.bind h fun _ => trivial

theorem asks_request {P : Q → Prop} {q : Q} (h : P q) : (request q : ExceptT ε (Prog Q A) (A q)).run.Asks P :=
  asks_lift ⟨h, fun _ => trivial⟩

theorem asks_ofExcept {P : Q → Prop} {r : Except ε α} : (ofExcept r : ExceptT ε (Prog Q A) α).run.Asks P :=
  trivial

theorem asks_attempt {P : Q → Prop} {p : ExceptT ε (Prog Q A) α} (h : p.run.Asks P) :
    (attempt p).run.Asks P := by
  unfold attempt
  rw [ExceptT.run_mk]
  exact Asks.bind h fun _ => trivial

theorem asks_mapError {ε' : Type} {P : Q → Prop} {f : ε → ε'}
    {p : ExceptT ε (Prog Q A) α} (h : p.run.Asks P) :
    (mapError f p).run.Asks P :=
  Asks.bind h fun _ => trivial

theorem asks_foldlM {P : Q → Prop} {f : β → α → ExceptT ε (Prog Q A) β} (hf : ∀ b a, (f b a).run.Asks P)
    (l : List α) (b : β) : (l.foldlM f b).run.Asks P := by
  induction l generalizing b with
  | nil => trivial
  | cons a l ih =>
    rw [List.foldlM_cons]
    exact asks_bind (hf b a) fun c => ih c

theorem asks_forM {P : Q → Prop} {f : α → ExceptT ε (Prog Q A) Unit}
    (hf : ∀ a, (f a).run.Asks P) (l : List α) :
    (l.forM f).run.Asks P := by
  induction l with
  | nil => trivial
  | cons a l ih => exact asks_bind (hf a) fun _ => ih

/-! ## Successful runs -/

/-- A run with arbitrary answers that ended well, from one history to another. -/
def Ran (p : ExceptT ε (Prog Q A) α) (h : List (Event Q A)) (a : α) (t : List (Event Q A)) : Prop :=
  Exec anything p.run h (some (.ok a)) t

theorem Ran.grows {p : ExceptT ε (Prog Q A) α} {h t : List (Event Q A)} {a : α} (hr : Ran p h a t) :
    ∃ new, t = new ++ h := Exec.grows hr

theorem Ran.suffix {p : ExceptT ε (Prog Q A) α} {h t : List (Event Q A)} {a : α} (hr : Ran p h a t) :
    h <:+ t := by
  obtain ⟨new, rfl⟩ := hr.grows
  exact List.suffix_append new h

theorem Ran.bind {x : ExceptT ε (Prog Q A) β} {f : β → ExceptT ε (Prog Q A) α} {h t : List (Event Q A)}
    {a : α} (hr : Ran (x >>= f) h a t) : ∃ b s, Ran x h b s ∧ Ran (f b) s a t := by
  unfold Ran at hr
  rw [ExceptT.run_bind] at hr
  obtain ⟨r, s, h₁, h₂⟩ := Exec.bind hr
  cases r with
  | ok b => exact ⟨b, s, h₁, h₂⟩
  | error e => cases h₂

theorem Ran.pure {a b : α} {h t : List (Event Q A)} (hr : Ran (Pure.pure a : ExceptT ε (Prog Q A) α) h b t) :
    b = a ∧ t = h := by
  cases hr
  exact ⟨rfl, rfl⟩

theorem Ran.throw {e : ε} {a : α} {h t : List (Event Q A)}
    (hr : Ran (throw e : ExceptT ε (Prog Q A) α) h a t) :
    False := by
  cases hr

theorem Ran.request {q : Q} {r : A q} {h t : List (Event Q A)}
    (hr : Ran (request q : ExceptT ε (Prog Q A) (A q)) h r t) : t = ⟨q, r⟩ :: h := by
  cases hr with
  | step hn hr =>
    cases hn
    cases hr
    rfl

theorem Ran.ofExcept {r : Except ε α} {a : α} {h t : List (Event Q A)}
    (hr : Ran (ofExcept r : ExceptT ε (Prog Q A) α) h a t) : r = .ok a ∧ t = h := by
  cases r with
  | ok b =>
    cases hr
    exact ⟨rfl, rfl⟩
  | error e => cases hr

/-- A refusal ends the run. -/
theorem Ran.refused {e : ε} {f : β → ExceptT ε (Prog Q A) α} {a : α} {h t : List (Event Q A)}
    (hr : Ran (MonadExcept.throw e >>= f) h a t) : False := by
  obtain ⟨b, s, h₁, -⟩ := Ran.bind hr
  exact Ran.throw h₁

/-- A check that was passed. -/
theorem Ran.guard {c : Prop} [Decidable c] {e : ε} {f : PUnit → ExceptT ε (Prog Q A) α} {a : α}
    {h t : List (Event Q A)} (hr : Ran (if c then MonadExcept.throw e >>= f else f PUnit.unit) h a t) :
    ¬c ∧ Ran (f PUnit.unit) h a t := by
  split at hr
  · exact hr.refused.elim
  next hc => exact ⟨hc, hr⟩

theorem Ran.attempt {p : ExceptT ε (Prog Q A) α} {r : Except ε α} {h t : List (Event Q A)}
    (hr : Ran (Prog.attempt p) h r t) : Exec anything p.run h (some r) t := by
  unfold Ran Prog.attempt at hr
  rw [ExceptT.run_mk] at hr
  obtain ⟨r', s, h₁, h₂⟩ := Exec.bind hr
  cases h₂
  exact h₁

theorem Ran.lift {p : Prog Q A α} {a : α} {h t : List (Event Q A)}
    (hr : Ran (liftM p : ExceptT ε (Prog Q A) α) h a t) : Exec anything p h (some a) t := by
  unfold Ran at hr
  rw [ExceptT.run_liftM, map_eq_pure_bind] at hr
  obtain ⟨b, s, h₁, h₂⟩ := Exec.bind hr
  cases h₂
  exact h₁

theorem Ran.mapError {ε' : Type} {f : ε → ε'} {p : ExceptT ε (Prog Q A) α} {h t : List (Event Q A)} {a : α}
    (hr : Ran (Prog.mapError f p) h a t) : Ran p h a t := by
  obtain ⟨r, s, hp, hr⟩ := Exec.bind hr
  cases r with
  | ok b =>
    cases hr
    exact hp
  | error e => cases hr

/-- Every result of a fallible program is that of a run. -/
theorem wpe_self {P : Q → Prop} {I : List (Event Q A) → Q → Prop} {p : ExceptT ε (Prog Q A) α}
    {h : List (Event Q A)} (hp : p.run.Asks P) (hI : ∀ h q, P q → I h q) :
    wpe anything I p h (Ran p h) fun _ _ => True := by
  refine wp_mono (wp_self hp hI) fun r t hr => ?_
  cases r with
  | ok a => exact hr
  | error e => trivial

/-- A program that keeps to its guard from this history on. -/
theorem wpe_grows {P : Q → Prop} {I : List (Event Q A) → Q → Prop} {p : ExceptT ε (Prog Q A) α}
    {h : List (Event Q A)} (hp : p.run.Asks P) (hI : ∀ new q, P q → I (new ++ h) q) :
    wpe anything I p h (fun _ t => ∃ new, t = new ++ h) fun _ t => ∃ new, t = new ++ h := by
  refine wpe_inv (J := fun t => ∃ new, t = new ++ h) hp ⟨[], rfl⟩ ?_ ?_
  · rintro _ q r _ - ⟨new, rfl⟩ rfl
    exact ⟨⟨q, r⟩ :: new, rfl⟩
  · rintro _ q hq ⟨new, rfl⟩
    exact hI new q hq

/-- A loop runs step by step; `I` knows the elements done. -/
theorem Ran.foldlM {f : β → α → ExceptT ε (Prog Q A) β} {I : List α → β → List (Event Q A) → Prop}
    (hf : ∀ done a b h c t, I done b h → Ran (f b a) h c t → I (done ++ [a]) c t)
    {l : List α} {b c : β} {h t : List (Event Q A)} (hb : I [] b h)
    (hr : Ran (l.foldlM f b) h c t) : I l c t := by
  have hloop : ∀ l done b h, I done b h → Ran (l.foldlM f b) h c t → I (done ++ l) c t := by
    intro l
    induction l with
    | nil =>
      intro done b h hb hr
      obtain ⟨rfl, rfl⟩ := Ran.pure hr
      rw [List.append_nil]
      exact hb
    | cons a l ih =>
      intro done b h hb hr
      rw [List.foldlM_cons] at hr
      obtain ⟨b', s, h₁, h₂⟩ := Ran.bind hr
      have := ih (done ++ [a]) b' s (hf done a b h b' s hb h₁) h₂
      rwa [List.append_assoc] at this
  exact hloop l [] b h hb hr

theorem Ran.forM {f : α → ExceptT ε (Prog Q A) Unit} {I : List α → List (Event Q A) → Prop}
    (hf : ∀ done a h u t, I done h → Ran (f a) h u t → I (done ++ [a]) t)
    {l : List α} {u : Unit} {h t : List (Event Q A)} (hb : I [] h) (hr : Ran (l.forM f) h u t) : I l t := by
  have hloop : ∀ l done h, I done h → Ran (l.forM f) h u t → I (done ++ l) t := by
    intro l
    induction l with
    | nil =>
      intro done h hb hr
      obtain ⟨-, rfl⟩ := Ran.pure hr
      rw [List.append_nil]
      exact hb
    | cons a l ih =>
      intro done h hb hr
      obtain ⟨v, s, h₁, h₂⟩ := Ran.bind hr
      have := ih (done ++ [a]) s (hf done a h v s hb h₁) h₂
      rwa [List.append_assoc] at this
  exact hloop l [] h hb hr

end Fallible

end Prog
