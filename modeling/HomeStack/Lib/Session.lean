import HomeStack.Lib.Prog

/-! Programs that run one after another over one world. A run may stop anywhere, and the world also
moves by itself: before, between and after the questions of a run. When a run is over, `close` says how
the world goes on. -/

namespace Prog

variable {Q σ α ι : Type} {A : Q → Type} {E : Env Q A σ} {idle : σ → σ → Prop}

/-- The environment whose world moves by itself around every question. -/
def Env.drifting (E : Env Q A σ) (idle : σ → σ → Prop) : Env Q A σ where
  next s q r t := ∃ s' t', Relation.ReflTransGen idle s s' ∧ E.next s' q r t' ∧
    Relation.ReflTransGen idle t' t

/-- The world does not leave `J` by itself. -/
def Stable (idle : σ → σ → Prop) (J : σ → Prop) : Prop := ∀ s t, J s → idle s t → J t

theorem Stable.star {J : σ → Prop} (h : Stable idle J) {s t : σ} (hs : J s)
    (hr : Relation.ReflTransGen idle s t) : J t := by
  induction hr with
  | refl => exact hs
  | tail _ hstep ih => exact h _ _ ih hstep

theorem Stable.and {J K : σ → Prop} (hJ : Stable idle J) (hK : ∀ s t, J s → K s → idle s t → K t) :
    Stable idle fun s => J s ∧ K s :=
  fun s t hs hstep => ⟨hJ s t hs.1 hstep, hK s t hs.1 hs.2 hstep⟩

/-- What an answer brings, where the world keeps what held before and what holds after it. -/
theorem Env.drifting_next {J K : σ → Prop} {q : Q} {r : A q} {s t : σ} (hJ : Stable idle J)
    (hK : Stable idle K) (hq : ∀ s t, J s → E.next s q r t → K t) (hs : J s)
    (hn : (E.drifting idle).next s q r t) : K t := by
  obtain ⟨s', t', hbefore, hnext, hafter⟩ := hn
  exact hK.star (hq s' t' (hJ.star hs hbefore) hnext) hafter

theorem Env.next_drifting {q : Q} {r : A q} {s t : σ} (h : E.next s q r t) : (E.drifting idle).next s q r t :=
  ⟨s, t, .refl, h, .refl⟩

/-- What holds at every question and at the end holds wherever the run stops. -/
theorem wp_reached {β : Type} {K : σ → Prop} {p : Prog Q A β} {s t : σ} {o : Option β}
    (h : wp E (fun s _ => K s) p s fun _ => K) (hr : Exec E p s o t) : K t := by
  cases o with
  | none =>
    rcases wp_stop h hr with ⟨q, hK⟩ | ⟨a, hK⟩
    · exact hK
    · exact hK
  | some a => exact wp_done h hr

variable (E idle) (close : σ → σ → Prop) (p : ι → Prog Q A α) (start : σ → Prop)

/-- The worlds between runs. -/
inductive Session : σ → Prop
  | start {s : σ} : start s → Session s
  | idle {s t : σ} : Session s → idle s t → Session t
  | run {s t u : σ} {o : Option α} (i : ι) : Session s → Exec (E.drifting idle) (p i) s o t →
      close t u → Session u

variable {E idle close p start}

/-- What holds at first, is stable, and is restored whenever a run that kept `K` is over. -/
theorem Session.inv {J K : σ → Prop} (hstart : ∀ s, start s → J s) (hidle : Stable idle J)
    (hrun : ∀ i s, J s → wp (E.drifting idle) (fun s _ => K s) (p i) s fun _ => K)
    (hclose : ∀ s t, K s → close s t → J t) {s : σ} (h : Session E idle close p start s) : J s := by
  induction h with
  | start h => exact hstart _ h
  | idle _ hstep ih => exact hidle _ _ ih hstep
  | run i _ hexec hend ih => exact hclose _ _ (wp_reached (hrun i _ ih) hexec) hend

end Prog
