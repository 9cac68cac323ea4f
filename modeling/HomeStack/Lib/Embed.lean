import HomeStack.Lib.Prog

/-! A program over some questions as a program over more of them. -/

namespace Prog

variable {Q Q' : Type} {A : Q → Type} {A' : Q' → Type} {α ε σ τ : Type} (f : Q → Q') (g : ∀ q, A' (f q) → A q)

/-- The same program, with its questions among others. -/
def embed : Prog Q A α → Prog Q' A' α
  | .pure a => .pure a
  | .ask q k => .ask (f q) fun r => embed (k (g q r))

/-- What holds of a program holds of it among other questions, if a map of states simulates them. -/
theorem wp_embed {E : Env Q A σ} {E' : Env Q' A' τ} {I : σ → Q → Prop} {J : τ → Q' → Prop} (π : τ → σ)
    (hn : ∀ {s q r t}, E'.next s (f q) r t → E.next (π s) q (g q r) (π t))
    (hJ : ∀ {s q}, I (π s) q → J s (f q))
    {p : Prog Q A α} {s : τ} {post : α → σ → Prop} (h : wp E I p (π s) post) :
    wp E' J (embed f g p) s fun a t => post a (π t) := by
  induction p generalizing s with
  | pure a => exact h
  | ask q k ih => exact ⟨hJ h.1, fun r t ht => ih (g q r) (h.2 _ _ (hn ht))⟩

/-- The same of a program that may fail. -/
theorem wpe_embed {E : Env Q A σ} {E' : Env Q' A' τ} {I : σ → Q → Prop} {J : τ → Q' → Prop} (π : τ → σ)
    (hn : ∀ {s q r t}, E'.next s (f q) r t → E.next (π s) q (g q r) (π t))
    (hJ : ∀ {s q}, I (π s) q → J s (f q))
    {p : ExceptT ε (Prog Q A) α} {s : τ} {K : α → σ → Prop} {X : ε → σ → Prop} (h : wpe E I p (π s) K X) :
    wpe E' J (ExceptT.mk (embed f g p.run)) s (fun a t => K a (π t)) fun e t => X e (π t) := by
  refine wp_mono (wp_embed f g π hn hJ h) fun r t hr => ?_
  cases r with
  | ok a => exact hr
  | error e => exact hr

theorem asks_embed {P : Q → Prop} {P' : Q' → Prop} (hP : ∀ q, P q → P' (f q))
    {p : Prog Q A α} (h : p.Asks P) :
    (embed f g p).Asks P' := by
  induction p with
  | pure a => trivial
  | ask q k ih => exact ⟨hP q h.1, fun r => ih _ (h.2 _)⟩

/-- An invariant that every question asked under the guard keeps holds wherever a run stops. -/
theorem Exec.inv {E : Env Q A σ} {I : σ → Q → Prop} {J : σ → Prop} {p : Prog Q A α} {s t : σ} {o : Option α}
    {post : α → σ → Prop} (hrun : Exec E p s o t) (hw : wp E I p s post) (hs : J s)
    (hn : ∀ s q r t, J s → I s q → E.next s q r t → J t) : J t := by
  induction p generalizing s with
  | pure a => cases hrun <;> exact hs
  | ask q k ih =>
    cases hrun with
    | stop => exact hs
    | step hnext hrun => exact ih _ hrun (hw.2 _ _ hnext) (hn _ _ _ _ hs hw.1 hnext)

end Prog
