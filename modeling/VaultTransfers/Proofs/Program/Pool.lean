import VaultTransfers.Proofs.Program.Runs

/-!
Many programs at work on one state, one call at a time. A program is answered in
whatever state the others have left, and may be dropped between two calls. A
discipline says which states are good, how a good state may move on, and which
calls a program may make; programs that keep to it leave every state good,
however they are interleaved.
-/

namespace VaultTransfers

/-- What programs that share a state may rely on, and what each of them has to keep. -/
structure Discipline (I : Interface) (σ : Type) where
  serve : Service I σ
  good : σ → Prop
  moves : σ → σ → Prop
  allowed : I.Call → σ → Prop
  moves_refl : ∀ s, moves s s
  moves_trans : ∀ s t u, moves s t → moves t u → moves s u
  /-- An allowed call leads from a good state to a good one. -/
  answered : ∀ c s r t, good s → allowed c s → serve c s r t → good t ∧ moves s t

namespace Program

variable {I : Interface} {α β ε σ : Type}

/-- The program makes allowed calls only, whatever happens between them, and ends with `post`. -/
def Meets (d : Discipline I σ) : Program I α → σ → (α → σ → Prop) → Prop
  | .done a, s, post => post a s
  | .call c next, s, post => ∀ t, d.moves s t → d.good t → d.allowed c t ∧
      ∀ r u, d.serve c t r u → Meets d (next r) u post

namespace Meets

variable {d : Discipline I σ} {s t : σ}

theorem mono {p : Program I α} {post post' : α → σ → Prop} (meets : Meets d p s post)
    (weaker : ∀ a t, post a t → post' a t) : Meets d p s post' := by
  induction p generalizing s with
  | done a => exact weaker a s meets
  | call c next ih =>
      intro t moved good
      obtain ⟨allowed, later⟩ := meets t moved good
      exact ⟨allowed, fun r u served => ih r (later r u served)⟩

theorem bind {p : Program I α} {f : α → Program I β} {post : β → σ → Prop}
    (meets : Meets d p s fun a t => Meets d (f a) t post) : Meets d (p >>= f) s post := by
  induction p generalizing s with
  | done a => exact meets
  | call c next ih =>
      intro t moved good
      obtain ⟨allowed, later⟩ := meets t moved good
      exact ⟨allowed, fun r u served => ih r (later r u served)⟩

theorem except_bind {p : ExceptT ε (Program I) α} {f : α → ExceptT ε (Program I) β}
    {post : Except ε β → σ → Prop}
    (meets : Meets d p.run s fun r t =>
      match r with
      | .ok a => Meets d (f a).run t post
      | .error fault => post (.error fault) t) : Meets d (p >>= f).run s post := by
  refine bind (meets.mono ?_)
  intro r t holds
  cases r with
  | ok a => exact holds
  | error fault => exact holds

theorem of_moves {p : Program I α} (moved : d.moves s t) (meets : Meets d p s fun _ _ => True) :
    Meets d p t fun _ _ => True := by
  cases p with
  | done a => trivial
  | call c next => exact fun u later good => meets u (d.moves_trans s t u moved later) good

theorem and_moves {p : Program I α} {post : α → σ → Prop} (meets : Meets d p s post) :
    Meets d p s fun a t => post a t ∧ d.moves s t := by
  induction p generalizing s with
  | done a => exact ⟨meets, d.moves_refl s⟩
  | call c next ih =>
      intro t moved good
      obtain ⟨allowed, later⟩ := meets t moved good
      refine ⟨allowed, fun r u served => ?_⟩
      obtain ⟨-, step⟩ := d.answered c t r u good allowed served
      refine (ih r (later r u served)).mono ?_
      rintro a v ⟨holds, rest⟩
      exact ⟨holds, d.moves_trans s u v (d.moves_trans s t u moved step) rest⟩

theorem perform {c : I.Call} {post : I.Reply c → σ → Prop}
    (allowed : ∀ t, d.moves s t → d.good t → d.allowed c t)
    (ends : ∀ t r u, d.moves s t → d.good t → d.serve c t r u → post r u) :
    Meets d (Program.perform c) s post :=
  fun t moved good => ⟨allowed t moved good, fun r u served => ends t r u moved good served⟩

end Meets

end Program

/-- Several services as one: a call is made on one of them. -/
def Interface.family {ι : Type} (I : ι → Interface) : Interface where
  Call := (i : ι) × (I i).Call
  Reply := fun c => (I c.1).Reply c.2

/-- What a user of one of the services has to keep to. -/
def Discipline.on {ι : Type} {I : ι → Interface} {σ : Type} (d : Discipline (.family I) σ) (i : ι) :
    Discipline (I i) σ where
  serve := fun c => d.serve ⟨i, c⟩
  good := d.good
  moves := d.moves
  allowed := fun c => d.allowed ⟨i, c⟩
  moves_refl := d.moves_refl
  moves_trans := d.moves_trans
  answered := fun c => d.answered ⟨i, c⟩

namespace Program

variable {ι α σ : Type} {I : ι → Interface} {i : ι}

/-- The program of one of the services; what it ends with is left out. -/
def on (i : ι) : Program (I i) α → Program (.family I) Unit
  | done _ => done ()
  | call c next => call (I := .family I) ⟨i, c⟩ fun r => on i (next r)

theorem Meets.on {d : Discipline (.family I) σ} {p : Program (I i) α} {s : σ} {post : α → σ → Prop}
    (meets : Meets (d.on i) p s post) : Meets d (p.on i) s fun _ _ => True := by
  induction p generalizing s with
  | done a => trivial
  | call c next ih =>
      intro t moved good
      obtain ⟨allowed, later⟩ := meets t moved good
      exact ⟨allowed, fun r u served => ih r (later r u served)⟩

theorem Advances.on {serve : Service (.family I) σ} {p q : Program (I i) α} {s t : σ}
    (advances : Advances (fun c => serve ⟨i, c⟩) p s q t) : Advances serve (p.on i) s (q.on i) t := by
  induction advances with
  | refl => exact .refl
  | call served _ ih => exact .call served ih

end Program

namespace Program

variable {I : Interface} {α β ε σ : Type} {fits : I.Call → Prop}
  {tells : (c : I.Call) → I.Reply c → Prop} {post : α → Prop}

/-- Told nothing but what `tells` allows, the program makes only calls that fit, and ends with
`post`. -/
def Asks (fits : I.Call → Prop) (tells : (c : I.Call) → I.Reply c → Prop) :
    Program I α → (α → Prop) → Prop
  | .done a, post => post a
  | .call c next, post => fits c ∧ ∀ r, tells c r → Asks fits tells (next r) post

namespace Asks

theorem mono {post' : α → Prop} {p : Program I α} (asks : p.Asks fits tells post)
    (weaker : ∀ a, post a → post' a) : p.Asks fits tells post' := by
  induction p with
  | done a => exact weaker a asks
  | call c next ih => exact ⟨asks.1, fun r told => ih r (asks.2 r told)⟩

theorem bind {post : β → Prop} {p : Program I α} {f : α → Program I β}
    (asks : p.Asks fits tells fun a => (f a).Asks fits tells post) :
    (p >>= f).Asks fits tells post := by
  induction p with
  | done a => exact asks
  | call c next ih => exact ⟨asks.1, fun r told => ih r (asks.2 r told)⟩

theorem meets {d : Discipline I σ} (allowed : ∀ c s, fits c → d.good s → d.allowed c s)
    (honest : ∀ c s r t, d.serve c s r t → tells c r) {p : Program I α}
    (asks : p.Asks fits tells post) (s : σ) : Meets d p s fun _ _ => True := by
  induction p generalizing s with
  | done a => trivial
  | call c next ih =>
      intro t _ good
      refine ⟨allowed c t asks.1 good, ?_⟩
      exact fun r u served => ih r (asks.2 r (honest c t r u served)) u

end Asks

end Program

/-- The calls of many callers, each with the name of its caller. -/
def Interface.named (ν : Type) (I : Interface) : Interface where
  Call := ν × I.Call
  Reply := fun c => I.Reply c.2

/-- What a caller has to keep to. -/
def Discipline.of {ν : Type} {I : Interface} {σ : Type} (d : Discipline (I.named ν) σ) (caller : ν) :
    Discipline I σ where
  serve := fun c => d.serve (caller, c)
  good := d.good
  moves := d.moves
  allowed := fun c => d.allowed (caller, c)
  moves_refl := d.moves_refl
  moves_trans := d.moves_trans
  answered := fun c => d.answered (caller, c)

namespace Program

variable {I : Interface} {α σ ν : Type}

/-- The program with its caller's name on each call. -/
def under (caller : ν) : Program I α → Program (I.named ν) α
  | done a => done a
  | call c next => call (I := I.named ν) (caller, c) fun r => under caller (next r)

theorem Meets.under {d : Discipline (I.named ν) σ} {caller : ν} {p : Program I α} {s : σ}
    {post : α → σ → Prop} (meets : Meets (d.of caller) p s post) :
    Meets d (p.under caller) s post := by
  induction p generalizing s with
  | done a => exact meets
  | call c next ih =>
      intro t moved good
      obtain ⟨allowed, later⟩ := meets t moved good
      exact ⟨allowed, fun r u served => ih r (later r u served)⟩

theorem Advances.under {serve : Service (I.named ν) σ} {caller : ν} {p q : Program I α} {s t : σ}
    (advances : Advances (fun c => serve (caller, c)) p s q t) :
    Advances serve (p.under caller) s (q.under caller) t := by
  induction advances with
  | refl => exact .refl
  | call served _ ih => exact .call served ih

end Program

structure Pool (I : Interface) (σ α : Type) where
  state : σ
  running : List (Program I α)

namespace Pool

variable {I : Interface} {σ α : Type}

/-- One step of a pool. What is started is among `jobs`, and `environment` is what happens without
any program. -/
inductive Step (serve : Service I σ) (jobs : Program I α → Prop) (environment : σ → σ → Prop) :
    Pool I σ α → Pool I σ α → Prop
  | start {s : σ} {running : List (Program I α)} (p : Program I α) (job : jobs p) :
      Step serve jobs environment ⟨s, running⟩ ⟨s, p :: running⟩
  | work {s t : σ} {before after : List (Program I α)} {c : I.Call}
      {next : I.Reply c → Program I α} (r : I.Reply c) (served : serve c s r t) :
      Step serve jobs environment ⟨s, before ++ .call c next :: after⟩
        ⟨t, before ++ next r :: after⟩
  | drop {s : σ} {before after : List (Program I α)} (p : Program I α) :
      Step serve jobs environment ⟨s, before ++ p :: after⟩ ⟨s, before ++ after⟩
  | environment {s t : σ} {running : List (Program I α)} (happens : environment s t) :
      Step serve jobs environment ⟨s, running⟩ ⟨t, running⟩

/-- The pools that a state can lead to, with nothing at work on it. -/
inductive Reachable (serve : Service I σ) (jobs : Program I α → Prop) (environment : σ → σ → Prop)
    (start : σ) : Pool I σ α → Prop
  | start : Reachable serve jobs environment start ⟨start, []⟩
  | step {p q : Pool I σ α} (reached : Reachable serve jobs environment start p)
      (step : Step serve jobs environment p q) : Reachable serve jobs environment start q

/-- The state is good, and so is what every program has still to do. -/
def Orderly (d : Discipline I σ) (p : Pool I σ α) : Prop :=
  d.good p.state ∧ ∀ q ∈ p.running, Program.Meets d q p.state fun _ _ => True

variable {d : Discipline I σ} {jobs : Program I α → Prop} {environment : σ → σ → Prop}

theorem Orderly.of_state {s t : σ} {running : List (Program I α)} (orderly : Orderly d ⟨s, running⟩)
    (good : d.good t) (moved : d.moves s t) : Orderly d ⟨t, running⟩ :=
  ⟨good, fun q member => (orderly.2 q member).of_moves moved⟩

theorem Orderly.step {p q : Pool I σ α}
    (keeps : ∀ j s, jobs j → d.good s → Program.Meets d j s fun _ _ => True)
    (calm : ∀ s t, d.good s → environment s t → d.good t ∧ d.moves s t)
    (orderly : Orderly d p) (step : Step d.serve jobs environment p q) : Orderly d q := by
  cases step with
  | start j job =>
      refine ⟨orderly.1, ?_⟩
      intro q member
      rcases List.mem_cons.mp member with rfl | old
      · exact keeps q _ job orderly.1
      · exact orderly.2 q old
  | @work s t before after c next r served =>
      have turn := orderly.2 (.call c next) (by simp)
      obtain ⟨allowed, later⟩ := turn s (d.moves_refl s) orderly.1
      obtain ⟨good, moved⟩ := d.answered c s r t orderly.1 allowed served
      refine ⟨good, ?_⟩
      intro q member
      rcases List.mem_append.mp member with earlier | member
      · exact (orderly.2 q (List.mem_append_left _ earlier)).of_moves moved
      · rcases List.mem_cons.mp member with rfl | behind
        · exact later r t served
        · exact (orderly.2 q (by simp [behind])).of_moves moved
  | @drop s before after j =>
      refine ⟨orderly.1, ?_⟩
      intro q member
      rcases List.mem_append.mp member with earlier | behind
      · exact orderly.2 q (List.mem_append_left _ earlier)
      · exact orderly.2 q (by simp [behind])
  | @environment s t running happens =>
      obtain ⟨good, moved⟩ := calm s t orderly.1 happens
      exact orderly.of_state good moved

theorem Orderly.moves {p q : Pool I σ α}
    (calm : ∀ s t, d.good s → environment s t → d.good t ∧ d.moves s t)
    (orderly : Orderly d p) (step : Step d.serve jobs environment p q) :
    d.moves p.state q.state := by
  cases step with
  | start j job => exact d.moves_refl _
  | @work s t before after c next r served =>
      have turn := orderly.2 (.call c next) (by simp)
      obtain ⟨allowed, -⟩ := turn s (d.moves_refl s) orderly.1
      exact (d.answered c s r t orderly.1 allowed served).2
  | drop j => exact d.moves_refl _
  | environment happens => exact (calm _ _ orderly.1 happens).2

/-- Every state is good that disciplined programs can lead to. -/
theorem Reachable.orderly {start : σ} {p : Pool I σ α}
    (keeps : ∀ j s, jobs j → d.good s → Program.Meets d j s fun _ _ => True)
    (calm : ∀ s t, d.good s → environment s t → d.good t ∧ d.moves s t) (good : d.good start)
    (reached : Reachable d.serve jobs environment start p) : Orderly d p := by
  induction reached with
  | start => exact ⟨good, by simp⟩
  | step _ step ih => exact ih.step keeps calm step

/-- A program may also go on for a while without being disturbed. -/
theorem Reachable.of_advances {serve : Service I σ} {start s t : σ} {p q : Program I α}
    (before : List (Program I α)) {after : List (Program I α)}
    (reached : Reachable serve jobs environment start ⟨s, before ++ p :: after⟩)
    (advances : Program.Advances serve p s q t) :
    Reachable serve jobs environment start ⟨t, before ++ q :: after⟩ := by
  induction advances with
  | refl => exact reached
  | call served _ ih => exact ih (reached.step (.work _ served))

end Pool

end VaultTransfers
