/-!
Programs that work by calling services. A program is its next call together with
what it does with each reply, or the value it ends with; what a call does is
left to whoever answers it. A store in memory, a database behind statements and
a world shared by many programs all answer the same calls.
-/

namespace VaultTransfers

/-- The calls that a service takes, and the type of the reply to each. -/
structure Interface where
  Call : Type
  Reply : Call → Type

inductive Program (I : Interface) (α : Type) where
  | done (a : α)
  | call (c : I.Call) (next : I.Reply c → Program I α)

namespace Program

variable {I J : Interface} {α β γ : Type}

def bind : Program I α → (α → Program I β) → Program I β
  | done a, f => f a
  | call c next, f => call c fun r => bind (next r) f

instance : Monad (Program I) where
  pure := done
  bind := bind

/-- The program of one call. -/
def perform (c : I.Call) : Program I (I.Reply c) :=
  call c done

theorem done_bind (a : α) (f : α → Program I β) : (done a >>= f) = f a := rfl

theorem call_bind (c : I.Call) (next : I.Reply c → Program I α) (f : α → Program I β) :
    (call c next >>= f) = call c fun r => next r >>= f := rfl

theorem bind_done (p : Program I α) : (p >>= done) = p := by
  induction p with
  | done a => rfl
  | call c next ih => exact congrArg (call c) (funext ih)

theorem bind_bind (p : Program I α) (f : α → Program I β) (g : β → Program I γ) :
    (p >>= f >>= g) = p >>= fun a => f a >>= g := by
  induction p with
  | done a => rfl
  | call c next ih => exact congrArg (call c) (funext ih)

instance : LawfulMonad (Program I) :=
  LawfulMonad.mk' (Program I) bind_done done_bind bind_bind

/-- Runs a program where every call is answered in a monad. -/
def interpret {m : Type → Type} [Monad m] (answer : (c : I.Call) → m (I.Reply c)) :
    Program I α → m α
  | done a => pure a
  | call c next => do interpret answer (next (← answer c))

section

variable {m : Type → Type} [Monad m] (answer : (c : I.Call) → m (I.Reply c))

theorem interpret_perform [LawfulMonad m] (c : I.Call) :
    interpret answer (perform c) = answer c := by
  simp [perform, interpret]

theorem interpret_bind [LawfulMonad m] (p : Program I α) (f : α → Program I β) :
    interpret answer (p >>= f) = interpret answer p >>= fun a => interpret answer (f a) := by
  induction p with
  | done a => simp [interpret, done_bind]
  | call c next ih => simp [interpret, call_bind, ih]

end

end Program

end VaultTransfers
