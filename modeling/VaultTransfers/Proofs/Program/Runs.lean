import VaultTransfers.Program

/-!
Runs of programs whose calls may be answered in more than one way. A service
tells which replies a state admits and what state each leads to, so that a
failing store, a lost message and a store in memory are services alike. A run
fixes one admitted reply for each call.
-/

namespace VaultTransfers

/-- Which replies a call may have in a state, and the state behind each. -/
abbrev Service (I : Interface) (σ : Type) :=
  (c : I.Call) → σ → I.Reply c → σ → Prop

namespace Program

variable {I : Interface} {α β ε σ τ : Type}

def Runs (serve : Service I σ) : Program I α → σ → α → σ → Prop
  | .done a, s, b, t => b = a ∧ t = s
  | .call c next, s, b, t => ∃ r u, serve c s r u ∧ Runs serve (next r) u b t

section

variable {serve : Service I σ} {s t : σ}

theorem runs_perform_iff {c : I.Call} {r : I.Reply c} :
    Runs serve (perform c) s r t ↔ serve c s r t := by
  constructor
  · rintro ⟨r', u, answered, rfl, rfl⟩
    exact answered
  · intro answered
    exact ⟨r, t, answered, rfl, rfl⟩

theorem runs_bind_iff {p : Program I α} {f : α → Program I β} {b : β} :
    Runs serve (p >>= f) s b t ↔ ∃ a u, Runs serve p s a u ∧ Runs serve (f a) u b t := by
  induction p generalizing s with
  | done a =>
      constructor
      · intro run
        exact ⟨a, s, ⟨rfl, rfl⟩, run⟩
      · rintro ⟨a', u, ⟨rfl, rfl⟩, run⟩
        exact run
  | call c next ih =>
      constructor
      · rintro ⟨r, u, answered, run⟩
        obtain ⟨a, v, first, rest⟩ := (ih r).mp run
        exact ⟨a, v, ⟨r, u, answered, first⟩, rest⟩
      · rintro ⟨a, v, ⟨r, u, answered, first⟩, rest⟩
        exact ⟨r, u, answered, (ih r).mpr ⟨a, v, first, rest⟩⟩

/-- A run of a program that may stop with a fault goes through its first part, or stops there. -/
theorem runs_except_bind_iff {p : ExceptT ε (Program I) α} {f : α → ExceptT ε (Program I) β}
    {b : Except ε β} :
    Runs serve (p >>= f).run s b t ↔
      ∃ a u, Runs serve p.run s a u ∧
        match a with
        | .ok a => Runs serve (f a).run u b t
        | .error fault => b = .error fault ∧ t = u := by
  constructor
  · intro run
    obtain ⟨a, u, first, rest⟩ := runs_bind_iff.mp run
    refine ⟨a, u, first, ?_⟩
    cases a with
    | ok a => exact rest
    | error fault => exact rest
  · rintro ⟨a, u, first, rest⟩
    refine runs_bind_iff.mpr ⟨a, u, first, ?_⟩
    cases a with
    | ok a => exact rest
    | error fault => exact rest

theorem interpret_bind_run {answer : (c : I.Call) → StateM τ (I.Reply c)} (p : Program I α)
    (f : α → Program I β) (s : τ) :
    (p >>= f).interpret answer s =
      (f (p.interpret answer s).1).interpret answer (p.interpret answer s).2 := by
  rw [interpret_bind]
  rfl

/-- The calls that are made when the program is interpreted. -/
def calls (answer : (c : I.Call) → StateM τ (I.Reply c)) : Program I α → τ → List I.Call
  | .done _, _ => []
  | .call c next, s => c :: calls answer (next (answer c s).1) (answer c s).2

/-- What an interpretation does is a run, where the service admits the answers to the calls that are
made; `view` is the part of the state that the service knows. -/
theorem runs_interpret_of_calls (view : τ → σ) {answer : (c : I.Call) → StateM τ (I.Reply c)}
    (p : Program I α) (s : τ)
    (admitted : ∀ c ∈ p.calls answer s, ∀ s,
      serve c (view s) (answer c s).1 (view (answer c s).2)) :
    Runs serve p (view s) (p.interpret answer s).1 (view (p.interpret answer s).2) := by
  induction p generalizing s with
  | done a => exact ⟨rfl, rfl⟩
  | call c next ih =>
      refine ⟨_, _, admitted c List.mem_cons_self s, ih _ _ ?_⟩
      exact fun c later => admitted c (List.mem_cons_of_mem _ later)

theorem runs_interpret (view : τ → σ) {answer : (c : I.Call) → StateM τ (I.Reply c)}
    (admitted : ∀ c s, serve c (view s) (answer c s).1 (view (answer c s).2))
    (p : Program I α) (s : τ) :
    Runs serve p (view s) (p.interpret answer s).1 (view (p.interpret answer s).2) :=
  runs_interpret_of_calls view p s fun c _ => admitted c

/-- Where the service admits every answer, the result of an interpretation is that of a run. -/
theorem runs_of_interpret {answer : (c : I.Call) → StateM σ (I.Reply c)}
    (admitted : ∀ c s, serve c s (answer c s).1 (answer c s).2) {p : Program I α} {result : α × σ}
    (same : p.interpret answer s = result) : Runs serve p s result.1 result.2 :=
  same ▸ runs_interpret id admitted p s

/-- A run under one service is seen as a run under another; `view` is the part of the state that the
other knows, and `holds` what may be relied on besides. -/
theorem Runs.view {serve : Service I τ} {serve' : Service I σ} {view : τ → σ} {holds : τ → Prop}
    (admitted : ∀ c s r t, holds s → serve c s r t → holds t ∧ serve' c (view s) r (view t))
    {p : Program I α} {s t : τ} {a : α} (start : holds s) (run : Runs serve p s a t) :
    holds t ∧ Runs serve' p (view s) a (view t) := by
  induction p generalizing s with
  | done b =>
      obtain ⟨rfl, rfl⟩ := run
      exact ⟨start, rfl, rfl⟩
  | call c next ih =>
      obtain ⟨r, u, answered, rest⟩ := run
      obtain ⟨later, answered'⟩ := admitted c s r u start answered
      obtain ⟨final, rest'⟩ := ih r later rest
      exact ⟨final, r, view u, answered', rest'⟩

/-- What an interpretation does is a run, where the service admits the answers as long as something
holds that they keep. -/
theorem runs_interpret_of_holds {holds : τ → Prop} (view : τ → σ)
    {answer : (c : I.Call) → StateM τ (I.Reply c)}
    (admitted : ∀ c s, holds s →
      holds (answer c s).2 ∧ serve c (view s) (answer c s).1 (view (answer c s).2))
    (p : Program I α) {s : τ} (start : holds s) :
    holds (p.interpret answer s).2 ∧
      Runs serve p (view s) (p.interpret answer s).1 (view (p.interpret answer s).2) := by
  have plain : Runs (fun c s r t => (r, t) = answer c s) p s (p.interpret answer s).1
      (p.interpret answer s).2 := runs_interpret id (fun _ _ => rfl) p s
  refine Runs.view ?_ start plain
  intro c s r t held answered
  obtain ⟨rfl, rfl⟩ := Prod.mk.inj answered
  exact admitted c s held

end

/-- Some calls of a program, each answered as the service admits, and what it has still to do. -/
inductive Advances (serve : Service I σ) : Program I α → σ → Program I α → σ → Prop
  | refl {p : Program I α} {s : σ} : Advances serve p s p s
  | call {c : I.Call} {next : I.Reply c → Program I α} {q : Program I α} {r : I.Reply c}
      {s u t : σ} (served : serve c s r u) (rest : Advances serve (next r) u q t) :
      Advances serve (.call c next) s q t

theorem Runs.advances {serve : Service I σ} {p : Program I α} {s t : σ} {a : α}
    (run : Runs serve p s a t) : Advances serve p s (.done a) t := by
  induction p generalizing s with
  | done b =>
      obtain ⟨rfl, rfl⟩ := run
      exact .refl
  | call c next ih =>
      obtain ⟨r, u, served, rest⟩ := run
      exact .call served (ih r rest)

/-- What is left of a program behind its next calls, up to so many, and the state then. -/
def advance (answer : (c : I.Call) → StateM σ (I.Reply c)) :
    Nat → Program I α → σ → Program I α × σ
  | n + 1, .call c next, s => advance answer n (next (answer c s).1) (answer c s).2
  | _, p, s => (p, s)

theorem advances_advance {serve : Service I σ} {answer : (c : I.Call) → StateM σ (I.Reply c)}
    (admitted : ∀ c s, serve c s (answer c s).1 (answer c s).2) (n : Nat) (p : Program I α) (s : σ) :
    Advances serve p s (p.advance answer n s).1 (p.advance answer n s).2 := by
  induction n generalizing p s with
  | zero => exact .refl
  | succ n ih =>
      cases p with
      | done a => exact .refl
      | call c next => exact .call (admitted c s) (ih _ _)

/-- However its calls are answered, the program ends with `post`. -/
def Ends (serve : Service I σ) (p : Program I α) (s : σ) (post : α → σ → Prop) : Prop :=
  ∀ a t, Runs serve p s a t → post a t

namespace Ends

variable {serve : Service I σ} {s : σ}

theorem mono {p : Program I α} {post post' : α → σ → Prop} (ends : Ends serve p s post)
    (weaker : ∀ a t, post a t → post' a t) : Ends serve p s post' :=
  fun a t run => weaker a t (ends a t run)

theorem pure {a : α} {post : α → σ → Prop} (holds : post a s) :
    Ends serve (Pure.pure a : Program I α) s post := by
  rintro b t ⟨rfl, rfl⟩
  exact holds

theorem perform {c : I.Call} {post : I.Reply c → σ → Prop}
    (ends : ∀ r t, serve c s r t → post r t) : Ends serve (Program.perform c) s post :=
  fun r t run => ends r t (runs_perform_iff.mp run)

theorem bind {p : Program I α} {f : α → Program I β} {post : β → σ → Prop}
    (ends : Ends serve p s fun a t => Ends serve (f a) t post) : Ends serve (p >>= f) s post := by
  intro b t run
  obtain ⟨a, u, first, rest⟩ := runs_bind_iff.mp run
  exact ends a u first b t rest

theorem except_bind {p : ExceptT ε (Program I) α} {f : α → ExceptT ε (Program I) β}
    {post : Except ε β → σ → Prop}
    (ends : Ends serve p.run s fun r t =>
      match r with
      | .ok a => Ends serve (f a).run t post
      | .error fault => post (.error fault) t) : Ends serve (p >>= f).run s post := by
  intro b t run
  obtain ⟨r, u, first, rest⟩ := runs_except_bind_iff.mp run
  have holds := ends r u first
  cases r with
  | ok a => exact holds b t rest
  | error fault =>
      obtain ⟨rfl, rfl⟩ := rest
      exact holds

end Ends

/-- However its calls are answered, the task ends well with `returns`, or stops with a fault with
`fails`. -/
def Settles (serve : Service I σ) (p : ExceptT ε (Program I) α) (s : σ) (returns : α → σ → Prop)
    (fails : ε → σ → Prop) : Prop :=
  (∀ a t, Runs serve p.run s (.ok a) t → returns a t) ∧
    ∀ fault t, Runs serve p.run s (.error fault) t → fails fault t

namespace Settles

variable {serve : Service I σ} {s : σ} {returns : α → σ → Prop} {fails : ε → σ → Prop}

theorem pure {a : α} (holds : returns a s) :
    Settles serve (Pure.pure a : ExceptT ε (Program I) α) s returns fails := by
  constructor
  · rintro b t ⟨same, rfl⟩
    cases same
    exact holds
  · rintro fault t ⟨same, -⟩
    cases same

theorem throw {fault : ε} (holds : fails fault s) :
    Settles serve (MonadExcept.throw fault : ExceptT ε (Program I) α) s returns fails := by
  constructor
  · rintro a t ⟨same, -⟩
    cases same
  · rintro other t ⟨same, rfl⟩
    cases same
    exact holds

theorem perform {c : I.Call} {returns : I.Reply c → σ → Prop}
    (served : ∀ r t, serve c s r t → returns r t) :
    Settles serve (ExceptT.lift (Program.perform c) : ExceptT ε (Program I) (I.Reply c)) s returns
      fails := by
  constructor
  · rintro r t ⟨r', u, answered, same, rfl⟩
    cases same
    exact served r t answered
  · rintro fault t ⟨r, u, -, same, -⟩
    cases same

theorem bind {p : ExceptT ε (Program I) α} {f : α → ExceptT ε (Program I) β}
    {returns : β → σ → Prop}
    (settles : Settles serve p s (fun a t => Settles serve (f a) t returns fails) fails) :
    Settles serve (p >>= f) s returns fails := by
  constructor
  · intro b t run
    obtain ⟨r, u, first, rest⟩ := runs_except_bind_iff.mp run
    cases r with
    | ok a => exact (settles.1 a u first).1 b t rest
    | error fault => cases rest.1
  · intro fault t run
    obtain ⟨r, u, first, rest⟩ := runs_except_bind_iff.mp run
    cases r with
    | ok a => exact (settles.1 a u first).2 fault t rest
    | error fault =>
        obtain ⟨same, rfl⟩ := rest
        cases same
        exact settles.2 _ _ first

theorem mono {p : ExceptT ε (Program I) α} {returns' : α → σ → Prop} {fails' : ε → σ → Prop}
    (settles : Settles serve p s returns fails) (well : ∀ a t, returns a t → returns' a t)
    (ill : ∀ fault t, fails fault t → fails' fault t) : Settles serve p s returns' fails' :=
  ⟨fun a t run => well a t (settles.1 a t run),
    fun fault t run => ill fault t (settles.2 fault t run)⟩

end Settles

end Program

end VaultTransfers
