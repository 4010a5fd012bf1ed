import Certus.Lib.Run

/-! # Interleaved programs over atomic calls

A **program** is a tree of calls: it makes one call, gets an answer and goes on with the branch of
that answer. A **pool** is a shared state together with the programs in progress, each with the
record of the calls it has made; a **move** of the pool adds a program or lets one of them make its
next call, which is atomic.

A **discipline** is a typestate for such programs: a ghost value, computed from the calls a program
has made, with the calls it allows and the answers it lets a program expect. That a program keeps to
a discipline is a property of its tree alone, by recursion (`Prog.Follows`), with a rule for each
way of building programs. The shared state enters in one place only, `Machine.disciplined`: an
invariant of the shared state and the ghost values that allowed calls keep, and that makes their
answers the expected ones, holds along every run.

* **`Machine.disciplined`** — the invariant rule. -/

namespace Certus

open List Option

/-! ## Programs -/

/-- A program over calls `C`, the call `c` being answered by a value of `A c`. -/
inductive Prog {C : Type} (A : C → Type) (α : Type) : Type
  | ret (a : α)
  | call (c : C) (k : A c → Prog A α)

namespace Prog

variable {C : Type} {A : C → Type} {α β : Type}

/-- Sequencing. -/
def bind : Prog A α → (α → Prog A β) → Prog A β
  | ret a, f => f a
  | call c k, f => call c fun a => (k a).bind f

instance : Monad (Prog A) where
  pure := ret
  bind := bind

/-- The program that makes one call and returns its answer. -/
def perform (c : C) : Prog A (A c) := call c ret

@[simp] theorem call_bind (c : C) (k : A c → Prog A α) (f : α → Prog A β) :
    (call c k >>= f) = call c fun a => k a >>= f := rfl

variable {ok : C → Prop}

/-- Every call the program can make satisfies `ok`. -/
def Only (ok : C → Prop) : Prog A α → Prop
  | ret _ => True
  | call c k => ok c ∧ ∀ a, (k a).Only ok

@[simp] theorem only_perform (c : C) : (perform c : Prog A (A c)).Only ok ↔ ok c :=
  and_iff_left fun _ => trivial

variable {p : Prog A α} {ok' : C → Prop}

theorem Only.bind {f : α → Prog A β} (hp : p.Only ok) (hf : ∀ a, (f a).Only ok) :
    (p >>= f).Only ok := by
  induction p with
  | ret a => exact hf a
  | call c k ih => exact ⟨hp.1, fun a => ih a (hp.2 a)⟩

theorem Only.mono (hp : p.Only ok) (h : ∀ c, ok c → ok' c) : p.Only ok' := by
  induction p with
  | ret a => exact trivial
  | call c k ih => exact ⟨h c hp.1, fun a => ih a (hp.2 a)⟩

theorem Only.and (hp : p.Only ok) (hp' : p.Only ok') : p.Only fun c => ok c ∧ ok' c := by
  induction p with
  | ret a => exact trivial
  | call c k ih => exact ⟨⟨hp.1, hp'.1⟩, fun a => ih a (hp.2 a) (hp'.2 a)⟩

end Prog

/-! ## Disciplines -/

/-- A typestate with ghost values `G`, for programs started by requests `ρ`. -/
structure Discipline {C : Type} (ρ : Type) (A : C → Type) (G : Type) where
  /-- The ghost value of a program that has made no call. -/
  init : ρ → G
  /-- The ghost value of a program that has nothing left to do. -/
  finished : G
  /-- The ghost value after one more call with its answer. -/
  after : G → (c : C) → A c → G
  /-- The calls that may be made. -/
  allowed : G → C → Prop
  /-- The answers that may be expected. -/
  possible : G → (c : C) → A c → Prop

namespace Prog

variable {C ρ : Type} {A : C → Type} {G α β : Type} {D : Discipline ρ A G}

/-- The program keeps to the discipline from ghost value `g` on, for all expected answers, and
every value it returns satisfies `Q` together with the ghost value at that point. -/
def Follows (D : Discipline ρ A G) : Prog A α → G → (α → G → Prop) → Prop
  | ret a, g, Q => Q a g
  | call c k, g, Q =>
    D.allowed g c ∧ ∀ a, D.possible g c a → (k a).Follows D (D.after g c a) Q

@[simp] theorem follows_call (c : C) (k : A c → Prog A α) (g : G) (Q : α → G → Prop) :
    (call c k).Follows D g Q ↔
      D.allowed g c ∧ ∀ a, D.possible g c a → (k a).Follows D (D.after g c a) Q := Iff.rfl

/-- The rule for sequencing. -/
theorem follows_bind (p : Prog A α) (f : α → Prog A β) (g : G) (Q : β → G → Prop) :
    (p >>= f).Follows D g Q ↔ p.Follows D g fun a g' => (f a).Follows D g' Q := by
  induction p generalizing g with
  | ret a => exact Iff.rfl
  | call c k ih =>
    rw [call_bind, follows_call, follows_call]
    exact and_congr_right fun _ => forall_congr' fun a => imp_congr_right fun _ => ih a _

variable {g : G} {p : Prog A α} {f : α → Prog A β} {P : G → Prop}

/-- The rule of consequence. -/
theorem Follows.mono {Q Q' : α → G → Prop} (h : p.Follows D g Q) (hQ : ∀ a g', Q a g' → Q' a g') :
    p.Follows D g Q' := by
  induction p generalizing g with
  | ret a => exact hQ a g h
  | call c k ih => exact ⟨h.1, fun a ha => ih a (h.2 a ha)⟩

/-- Sequencing through a postcondition of the first part. -/
theorem Follows.bind {P : α → G → Prop} {Q : β → G → Prop} (h : p.Follows D g P)
    (hf : ∀ a g', P a g' → (f a).Follows D g' Q) : (p >>= f).Follows D g Q :=
  (follows_bind p f g Q).mpr (h.mono hf)

/-- The program keeps to the discipline and keeps `P` of its ghost value. -/
def Keeps (D : Discipline ρ A G) (P : G → Prop) (p : Prog A α) : Prop :=
  ∀ g, P g → p.Follows D g fun _ => P

theorem keeps_ret (a : α) : Keeps D P (ret a : Prog A α) := fun _ hg => hg

/-- A program keeps what each of its calls keeps. -/
theorem keeps_of_only {ok : C → Prop}
    (h : ∀ c, ok c → ∀ g, P g → D.allowed g c ∧ ∀ a, D.possible g c a → P (D.after g c a))
    (hp : p.Only ok) : Keeps D P p := by
  intro g hg
  induction p generalizing g with
  | ret a => exact hg
  | call c k ih =>
    obtain ⟨hallowed, hafter⟩ := h c hp.1 g hg
    exact ⟨hallowed, fun a ha => ih a (hp.2 a) _ (hafter a ha)⟩

theorem Keeps.bind (h : Keeps D P p) (hf : ∀ a, Keeps D P (f a)) : Keeps D P (p >>= f) :=
  fun g hg => (h g hg).bind fun a g' hg' => hf a g' hg'

end Prog

/-- Two disciplines at once. -/
def Discipline.prod {C ρ G H : Type} {A : C → Type} (D : Discipline ρ A G) (E : Discipline ρ A H) :
    Discipline ρ A (G × H) where
  init r := (D.init r, E.init r)
  finished := (D.finished, E.finished)
  after g c a := (D.after g.1 c a, E.after g.2 c a)
  allowed g c := D.allowed g.1 c ∧ E.allowed g.2 c
  possible g c a := D.possible g.1 c a ∧ E.possible g.2 c a

/-- A program that keeps to two disciplines keeps to both at once. -/
theorem Prog.Follows.prod {C ρ G H α : Type} {A : C → Type} {D : Discipline ρ A G}
    {E : Discipline ρ A H} {p : Prog A α} {g : G} {h : H} {Q : α → G → Prop} {R : α → H → Prop}
    (hD : p.Follows D g Q) (hE : p.Follows E h R) :
    p.Follows (D.prod E) (g, h) fun a gh => Q a gh.1 ∧ R a gh.2 := by
  induction p generalizing g h with
  | ret a => exact ⟨hD, hE⟩
  | call c k ih =>
    exact ⟨⟨hD.1, hE.1⟩, fun a ha => ih a (hD.2 a ha.1) (hE.2 a ha.2)⟩

/-! ## Pools -/

/-- A program in progress: what it was started for, what it has still to do, and the calls it has
made with their answers, the latest first. -/
structure Thread {C : Type} (ρ : Type) (A : C → Type) where
  req : ρ
  rest : Prog A Unit
  past : List (Sigma A)

open Thread

/-- The ghost value after the calls a thread has made. -/
def Thread.trace {C ρ G : Type} {A : C → Type} (D : Discipline ρ A G) (t : Thread ρ A) : G :=
  t.past.foldr (fun e g => D.after g e.1 e.2) (D.init t.req)

/-- The ghost value of a thread. -/
def Thread.ghost {C ρ G : Type} {A : C → Type} (D : Discipline ρ A G) (t : Thread ρ A) : G :=
  match t.rest with
  | .ret _ => D.finished
  | .call _ _ => t.trace D

section

variable {C ρ G H : Type} {A : C → Type} (D : Discipline ρ A G) (E : Discipline ρ A H)
  (t : Thread ρ A)

theorem Thread.trace_prod : t.trace (D.prod E) = (t.trace D, t.trace E) := by
  obtain ⟨r, rest, past⟩ := t
  induction past with
  | nil => rfl
  | cons e past ih =>
    have hcons : ∀ {K : Type} (F : Discipline ρ A K),
        trace F ⟨r, rest, e :: past⟩ = F.after (trace F ⟨r, rest, past⟩) e.1 e.2 :=
      fun F => rfl
    rw [hcons, hcons, hcons, ih]
    rfl

theorem Thread.ghost_prod : t.ghost (D.prod E) = (t.ghost D, t.ghost E) := by
  unfold ghost
  split
  · rfl
  · exact trace_prod D E t

end

/-- The call a thread makes next. -/
def Thread.next {C ρ : Type} {A : C → Type} (t : Thread ρ A) : Option C :=
  match t.rest with
  | .ret _ => none
  | .call c _ => some c

/-- A shared state and the programs in progress on it. -/
structure Pool {C : Type} (σ ρ : Type) (A : C → Type) where
  shared : σ
  threads : List (Thread ρ A)

/-- The moves of a pool: a request is taken up, or thread `i` makes its next call, `o` being what
the environment contributes to the answer. -/
inductive Move (ρ O : Type)
  | spawn (r : ρ)
  | step (i : ℕ) (o : O)
  deriving DecidableEq, Repr

/-- An interleaved system: the effect and answer of each call (`none` when it is not enabled), the
requests that are taken up in a state, and the program of each. -/
structure Machine {C : Type} (σ ρ O : Type) (A : C → Type) where
  exec : (c : C) → O → σ → Option (A c × σ)
  accept : ρ → σ → Option σ
  body : ρ → Prog A Unit

namespace Machine

variable {C σ ρ O G : Type} {A : C → Type} (M : Machine σ ρ O A)

/-- The pool after a move. -/
def step (s : Pool σ ρ A) : Move ρ O → Option (Pool σ ρ A)
  | .spawn r => (M.accept r s.shared).map fun σ' => ⟨σ', s.threads ++ [⟨r, M.body r, []⟩]⟩
  | .step i o =>
    match s.threads[i]? with
    | some ⟨r, .call c k, past⟩ =>
      (M.exec c o s.shared).map fun p =>
        ⟨p.2, s.threads.set i ⟨r, k p.1, ⟨c, p.1⟩ :: past⟩⟩
    | _ => none

variable {M}

variable {s t : Pool σ ρ A}

/-- What taking up a request does. -/
theorem step_spawn {r : ρ} (h : M.step s (.spawn r) = some t) :
    ∃ σ', M.accept r s.shared = some σ' ∧ t = ⟨σ', s.threads ++ [⟨r, M.body r, []⟩]⟩ := by
  obtain ⟨σ', haccept, rfl⟩ := map_eq_some_iff.mp h
  exact ⟨σ', haccept, rfl⟩

/-- What a call does. -/
theorem step_call {i : ℕ} {o : O} (h : M.step s (.step i o) = some t) :
    ∃ r c k past a σ', s.threads[i]? = some ⟨r, .call c k, past⟩ ∧
      M.exec c o s.shared = some (a, σ') ∧ t = ⟨σ', s.threads.set i ⟨r, k a, ⟨c, a⟩ :: past⟩⟩ := by
  simp only [step] at h
  split at h
  · next r c k past hi =>
      obtain ⟨⟨a, σ'⟩, hexec, rfl⟩ := map_eq_some_iff.mp h
      exact ⟨r, c, k, past, a, σ', hi, hexec, rfl⟩
  · cases h

end Machine

/-! ## The invariant rule -/

/-- The ghost values of the threads. -/
def Pool.ghosts {C σ ρ G : Type} {A : C → Type} (D : Discipline ρ A G) (s : Pool σ ρ A) : List G :=
  s.threads.map (ghost D)

variable {i : ℕ}

theorem Pool.ghosts_getElem? {C σ ρ G : Type} {A : C → Type} {D : Discipline ρ A G} {s : Pool σ ρ A}
    {t : Thread ρ A} (h : s.threads[i]? = some t) : (s.ghosts D)[i]? = some (t.ghost D) := by
  rw [Pool.ghosts, getElem?_map, h]
  rfl

/-- The ghost values of one of two disciplines. -/
theorem Pool.ghosts_prod {C σ ρ G H : Type} {A : C → Type} (D : Discipline ρ A G)
    (E : Discipline ρ A H) (s : Pool σ ρ A) :
    (s.ghosts (D.prod E)).map Prod.fst = s.ghosts D ∧
      (s.ghosts (D.prod E)).map Prod.snd = s.ghosts E := by
  simp only [Pool.ghosts, List.map_map]
  exact ⟨map_congr_left fun t _ => congrArg Prod.fst (t.ghost_prod D E),
    map_congr_left fun t _ => congrArg Prod.snd (t.ghost_prod D E)⟩

/-- The values of a list in which one value was replaced. -/
theorem mem_set_cases {G : Type} {gs : List G} {g x : G} (h : x ∈ gs.set i g) :
    x = g ∨ x ∈ gs.eraseIdx i := by
  obtain ⟨j, hj⟩ := mem_iff_getElem?.mp h
  rw [getElem?_set] at hj
  split_ifs at hj with hij hlt
  · exact .inl (some.inj hj).symm
  · exact .inr (mem_eraseIdx_iff_getElem?.mpr ⟨j, fun h => hij h.symm, hj⟩)

/-- A value that is replaced by itself. -/
theorem set_getElem?_self {G : Type} {gs : List G} {g : G} (h : gs[i]? = some g) :
    gs.set i g = gs := by
  obtain ⟨hlt, rfl⟩ := List.getElem?_eq_some_iff.mp h
  exact set_getElem_self hlt

/-! ### Sums over the ghost values -/

/-- The sum of a quantity over a list. -/
def total {G : Type} (f : G → ℕ) (gs : List G) : ℕ := (gs.map f).sum

section Total

variable {G : Type} {f f' : G → ℕ} {gs : List G} {i : ℕ} {g : G}

@[simp] theorem total_cons (g : G) (gs : List G) : total f (g :: gs) = f g + total f gs := by
  simp [total]

theorem total_append (gs gs' : List G) : total f (gs ++ gs') = total f gs + total f gs' := by
  simp [total]

/-- A sum without one of its terms. -/
theorem total_eraseIdx (h : gs[i]? = some g) : total f gs = f g + total f (gs.eraseIdx i) := by
  induction gs generalizing i with
  | nil => cases h
  | cons x gs ih =>
    cases i with
    | zero =>
      cases h
      exact total_cons g gs
    | succ i =>
      rw [eraseIdx_cons_succ, total_cons, total_cons, ih h]
      omega

/-- A sum with one of its terms replaced. -/
theorem total_set (h : gs[i]? = some g) (g' : G) :
    total f (gs.set i g') = f g' + total f (gs.eraseIdx i) := by
  induction gs generalizing i with
  | nil => cases h
  | cons x gs ih =>
    cases i with
    | zero => exact total_cons g' gs
    | succ i =>
      rw [set_cons_succ, eraseIdx_cons_succ, total_cons, total_cons, ih h]
      omega

theorem total_le_total (h : ∀ g ∈ gs, f g ≤ f' g) : total f gs ≤ total f' gs := by
  induction gs with
  | nil => exact Nat.le_refl _
  | cons x gs ih =>
    rw [total_cons, total_cons]
    exact Nat.add_le_add (h x mem_cons_self) (ih fun g hg => h g (mem_cons_of_mem x hg))

end Total

/-- Every thread keeps to the discipline, and `I` holds of the shared state and the ghost values.
`idle` is what a program leaves behind when it is done. -/
structure Disciplined {C σ ρ G : Type} {A : C → Type} (D : Discipline ρ A G) (idle : G → Prop)
    (I : σ → List G → Prop) (s : Pool σ ρ A) : Prop where
  inv : I s.shared (s.ghosts D)
  follows : ∀ t ∈ s.threads, t.rest.Follows D (t.trace D) fun _ g => idle g

namespace Machine

variable {C σ ρ O G : Type} {A : C → Type} {M : Machine σ ρ O A}

variable {D : Discipline ρ A G} {I : σ → List G → Prop} {idle : G → Prop}

/-- A thread that was just given its ghost value may be done: then it has the ghost value of a
finished program. -/
theorem inv_ghost
    (hdone : ∀ σ gs i g, gs[i]? = some g → idle g → I σ gs → I σ (gs.set i D.finished)) {σ' : σ}
    {gs : List G} {i : ℕ} {t : Thread ρ A} (hi : gs[i]? = some (t.trace D))
    (hfollows : t.rest.Follows D (t.trace D) fun _ g => idle g) (hinv : I σ' gs) :
    I σ' (gs.set i (t.ghost D)) := by
  unfold ghost
  cases hrest : t.rest with
  | ret a =>
    rw [hrest] at hfollows
    exact hdone _ _ _ _ hi hfollows hinv
  | call c k => rwa [set_getElem?_self hi]

/-- **The invariant rule.** Let every request's program keep to the discipline `D`, and let `I` be
an invariant of the shared state and the ghost values: kept when a request is taken up, when a
program ends, and by every allowed call that meets the guard, whose answer is then one that `D` lets
expect. Then along every guarded run all programs keep to the discipline and the invariant holds. -/
theorem disciplined {ok : Pool σ ρ A → Move ρ O → Prop}
    (hbody : ∀ r, (M.body r).Follows D (D.init r) fun _ g => idle g)
    (hspawn : ∀ (s : Pool σ ρ A) r σ', I s.shared (s.ghosts D) → ok s (.spawn r) →
      M.accept r s.shared = some σ' → I σ' (s.ghosts D ++ [D.init r]))
    (hdone : ∀ σ gs i g, gs[i]? = some g → idle g → I σ gs → I σ (gs.set i D.finished))
    (hcall : ∀ (s : Pool σ ρ A) i o r c k past a σ', Disciplined D idle I s →
      s.threads[i]? = some ⟨r, .call c k, past⟩ → ok s (.step i o) →
      D.allowed (trace D ⟨r, .call c k, past⟩) c →
      M.exec c o s.shared = some (a, σ') →
      D.possible (trace D ⟨r, .call c k, past⟩) c a ∧
        I σ' ((s.ghosts D).set i (D.after (trace D ⟨r, .call c k, past⟩) c a)))
    {s t : Pool σ ρ A} {ms : List (Move ρ O)} (h0 : Disciplined D idle I s)
    (hrun : Run M.step ok s ms t) : Disciplined D idle I t := by
  refine Run.invariant h0 ?_ hrun
  rintro s (r | ⟨i, o⟩) t hs hguard hstep
  · obtain ⟨σ', haccept, rfl⟩ := step_spawn hstep
    have hnew := inv_ghost (t := ⟨r, M.body r, []⟩) (i := (s.ghosts D).length) hdone
      (getElem?_concat_length ..) (hbody r) (hspawn s r σ' hs.inv hguard haccept)
    refine ⟨?_, fun u hu => ?_⟩
    · rw [set_append_right _ _ (Nat.le_refl _), Nat.sub_self] at hnew
      simpa [Pool.ghosts] using hnew
    · rcases mem_append.mp hu with hu | hu
      · exact hs.follows u hu
      · obtain rfl := mem_singleton.mp hu
        exact hbody r
  · obtain ⟨r, c, k, past, a, σ', hi, hexec, rfl⟩ := step_call hstep
    obtain ⟨hallowed, hrest⟩ := hs.follows _ (mem_of_getElem? hi)
    obtain ⟨hpossible, hinv⟩ := hcall s i o r c k past a σ' hs hi hguard hallowed hexec
    have hlt : i < (s.ghosts D).length :=
      (List.getElem?_eq_some_iff.mp (Pool.ghosts_getElem? hi)).1
    have hnew := inv_ghost (t := ⟨r, k a, ⟨c, a⟩ :: past⟩) hdone
      (getElem?_set_self hlt) (hrest a hpossible) hinv
    refine ⟨?_, fun u hu => ?_⟩
    · rw [set_set] at hnew
      simpa only [Pool.ghosts, map_set] using hnew
    · rcases mem_or_eq_of_mem_set hu with hu | rfl
      · exact hs.follows u hu
      · exact hrest a hpossible

end Machine

end Certus
