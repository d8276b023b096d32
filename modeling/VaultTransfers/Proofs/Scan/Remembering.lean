import Mathlib.Logic.Relation
import VaultTransfers.Pipeline.Scan
import VaultTransfers.Proofs.Program.Pool

/-!
The memory of watched wallets in front of the watch list. Lookups of any wallets
are at work on both, one call at a time, while wallets are registered and
anything that is remembered may be forgotten. What is remembered has been
registered, and the list only grows; a lookup therefore tells what the list
holds while it is at work, as it would without the memory.
-/

namespace VaultTransfers

namespace Program

variable {I : Interface} {α σ : Type}

/-- A run with others at work before each call and behind the last; the calls are listed with the
states in which they were answered. -/
def RunsAmid (serve : Service I σ) (others : σ → σ → Prop) :
    Program I α → σ → List (I.Call × σ) → α → σ → Prop
  | .done a, s, calls, b, t => calls = [] ∧ b = a ∧ others s t
  | .call c next, s, calls, b, t => ∃ m r u later, others s m ∧ serve c m r u ∧
      calls = (c, m) :: later ∧ RunsAmid serve others (next r) u later b t

end Program

namespace Scan

open Program

/-- The watch list, and the wallets that are remembered to be on it. -/
structure Memory where
  list : WatchList
  cached : List Watched

namespace Memory

/-- Nothing but what is remembered is told to be known. -/
def answers : Service Scan.interface Memory
  | .knows w, s, known, t => known = decide (w ∈ s.cached) ∧ t = s
  | .remember w, s, _, t => t = { s with cached := w :: s.cached }
  | .watchList c, s, reply, t =>
    (reply, t.list) = WatchList.answer c s.list ∧ t.cached = s.cached
  | .chain _, s, _, t | .cursor _, s, _, t | .outbox _, s, _, t | .stopRequested, s, _, t => t = s

/-- What happens without any lookup. All is forgotten when the scanner is started anew. -/
inductive Drift : Memory → Memory → Prop
  | register {s : Memory} (w : Watched) : Drift s { s with list := s.list.register w }
  | forget {s : Memory} {kept : List Watched} (old : kept ⊆ s.cached) :
      Drift s { s with cached := kept }

def IsLookup (p : Program Scan.interface (Except Fault Bool)) : Prop :=
  ∃ w, p = (isWatched w).run

/-- Lookups at work on a memory. -/
abbrev Lookups := Pool Scan.interface Memory (Except Fault Bool)

namespace Lookups

def Later : Lookups → Lookups → Prop :=
  Relation.ReflTransGen (Pool.Step answers IsLookup Drift)

/-- The answer to one more program beside those that are at work. -/
def answer : Service Scan.interface Lookups :=
  fun c p r q => answers c p.state r q.state ∧ q.running = p.running

/-- One more lookup, with the others at work between its calls. -/
def Finds (w : Watched) :
    Lookups → List (Scan.Call × Lookups) → Except Fault Bool → Lookups → Prop :=
  RunsAmid answer Later (isWatched w).run

end Lookups

/-- A lookup made these calls, and told what the list held when it asked last. -/
inductive Told (w : Watched) : List (Scan.Call × Lookups) → Except Fault Bool → Prop
  | remembered {m : Lookups} (cached : w ∈ m.state.cached) :
      Told w [(.knows w, m)] (.ok (m.state.list.contains w))
  | absent {m n : Lookups} (fresh : w ∉ m.state.cached)
      (unlisted : n.state.list.contains w = false) :
      Told w [(.knows w, m), (.watchList (.contains w), n)] (.ok (n.state.list.contains w))
  | present {m n o : Lookups} (fresh : w ∉ m.state.cached)
      (listed : n.state.list.contains w = true) :
      Told w [(.knows w, m), (.watchList (.contains w), n), (.remember w, o)]
        (.ok (n.state.list.contains w))

theorem run_isWatched (w : Watched) :
    (isWatched w).run = .call (.knows w) fun (known : Bool) =>
      if known then .done (.ok true) else .call (.watchList (.contains w)) fun
        | .error fault => .done (.error (.store fault))
        | .ok false => .done (.ok false)
        | .ok true => .call (.remember w) fun _ => .done (.ok true) := by
  refine congrArg (Program.call (I := Scan.interface) (Scan.Call.knows w)) (funext fun known => ?_)
  cases known with
  | true => rfl
  | false =>
      refine congrArg (Program.call (I := Scan.interface) (Scan.Call.watchList (.contains w)))
        (funext fun reply => ?_)
      rcases reply with fault | _ | _
      · rfl
      · rfl
      · rfl

theorem answers_contains_iff {w : Watched} {s t : Memory}
    {reply : Scan.interface.Reply (.watchList (.contains w))} :
    answers (.watchList (.contains w)) s reply t ↔ reply = .ok (s.list.contains w) ∧ t = s := by
  constructor
  · rintro ⟨answered, cached⟩
    obtain ⟨rfl, list⟩ := Prod.mk.inj answered
    refine ⟨rfl, ?_⟩
    cases t
    cases list
    cases cached
    rfl
  · rintro ⟨rfl, rfl⟩
    exact ⟨rfl, rfl⟩

theorem contains_register_of_contains {list : WatchList} {v w : Watched}
    (listed : list.contains v = true) : (list.register w).contains v = true := by
  rw [WatchList.contains_register, listed, Bool.or_true]

/-- What is remembered is listed, and what is listed stays so. -/
def rule : Discipline Scan.interface Memory where
  serve := answers
  good s := ∀ w ∈ s.cached, s.list.contains w = true
  moves s t := ∀ w, s.list.contains w = true → t.list.contains w = true
  allowed c s := ∀ w, c = .remember w → s.list.contains w = true
  moves_refl _ _ := id
  moves_trans _ _ _ first second w listed := second w (first w listed)
  answered := by
    intro c s r t sound allowed answered
    cases c with
    | knows w =>
        obtain ⟨-, rfl⟩ := answered
        exact ⟨sound, fun _ => id⟩
    | remember w =>
        obtain rfl : t = _ := answered
        refine ⟨?_, fun _ => id⟩
        intro v member
        rcases List.mem_cons.mp member with rfl | old
        · exact allowed v rfl
        · exact sound v old
    | watchList c =>
        obtain ⟨answered, cached⟩ := answered
        have list : t.list = _ := congrArg Prod.snd answered
        have grown (v : Watched) (listed : s.list.contains v = true) :
            t.list.contains v = true := by
          rw [list]
          cases c with
          | register w => exact contains_register_of_contains listed
          | contains w => exact listed
        exact ⟨fun v member => grown v (sound v (cached ▸ member)), grown⟩
    | chain c | cursor c | outbox c | stopRequested =>
        obtain rfl : t = s := answered
        exact ⟨sound, fun _ => id⟩

theorem meets_isWatched (w : Watched) (s : Memory) :
    Meets rule (isWatched w).run s fun _ _ => True := by
  rw [run_isWatched]
  intro m _ _
  refine ⟨nofun, ?_⟩
  rintro known u ⟨-, rfl⟩
  cases known with
  | true => trivial
  | false =>
      intro n _ _
      refine ⟨nofun, ?_⟩
      intro reply v answered
      obtain ⟨rfl, rfl⟩ := answers_contains_iff.mp answered
      cases listed : v.list.contains w with
      | false => trivial
      | true =>
          intro o later _
          refine ⟨?_, fun _ _ _ => trivial⟩
          rintro v same
          cases same
          exact later w listed

theorem calm {s t : Memory} (sound : rule.good s) (drift : Drift s t) :
    rule.good t ∧ rule.moves s t := by
  cases drift with
  | register w =>
      exact ⟨fun v member => contains_register_of_contains (sound v member),
        fun v listed => contains_register_of_contains listed⟩
  | forget old => exact ⟨fun v member => sound v (old member), fun _ => id⟩

namespace Lookups

variable {p q : Lookups} {w : Watched}

theorem orderly_of_reachable {start : Memory} (fresh : start.cached = [])
    (reached : Pool.Reachable answers IsLookup Drift start p) : Pool.Orderly rule p := by
  refine Pool.Reachable.orderly (d := rule) ?_ (fun _ _ => calm) ?_ reached
  · rintro j s ⟨w, rfl⟩ _
    exact meets_isWatched w s
  · intro w member
    rw [fresh] at member
    exact absurd member List.not_mem_nil

theorem Later.orderly (orderly : Pool.Orderly rule p) (later : Later p q) :
    Pool.Orderly rule q ∧ rule.moves p.state q.state := by
  induction later with
  | refl => exact ⟨orderly, rule.moves_refl _⟩
  | @tail m q _ step ih =>
      obtain ⟨before, moved⟩ := ih
      refine ⟨Pool.Orderly.step ?_ (fun _ _ => calm) before step, ?_⟩
      · rintro j s ⟨w, rfl⟩ _
        exact meets_isWatched w s
      · exact rule.moves_trans _ _ _ moved (Pool.Orderly.moves (fun _ _ => calm) before step)

/-- The lookup's own calls keep to the rule, too. -/
theorem told_of_finds {calls : List (Scan.Call × Lookups)} {r : Except Fault Bool}
    (orderly : Pool.Orderly rule p) (finds : Finds w p calls r q) : Told w calls r := by
  rw [Finds, run_isWatched] at finds
  obtain ⟨m, known, m', later, first, ⟨⟨rfl, same⟩, running⟩, rfl, finds⟩ := finds
  have sound := (Later.orderly orderly first).1.1
  by_cases cached : w ∈ m.state.cached
  · rw [decide_eq_true cached] at finds
    obtain ⟨rfl, rfl, -⟩ := finds
    rw [← sound w cached]
    exact .remembered cached
  · rw [decide_eq_false cached] at finds
    obtain ⟨n, reply, n', later, second, ⟨answered, -⟩, rfl, finds⟩ := finds
    obtain ⟨rfl, -⟩ := answers_contains_iff.mp answered
    cases listed : n.state.list.contains w with
    | false =>
        rw [listed] at finds
        obtain ⟨rfl, rfl, -⟩ := finds
        rw [← listed]
        exact .absent cached listed
    | true =>
        rw [listed] at finds
        obtain ⟨o, _, o', later, -, -, rfl, rfl, rfl, -⟩ := finds
        rw [← listed]
        exact .present cached listed

/-- A program that keeps to the rule is answered in states that the others and it can lead to. -/
theorem moves_of_runsAmid {x : Program Scan.interface (Except Fault Bool)}
    {calls : List (Scan.Call × Lookups)} {r : Except Fault Bool} (orderly : Pool.Orderly rule p)
    (meets : Meets rule x p.state fun _ _ => True) (run : RunsAmid answer Later x p calls r q) :
    ∀ call ∈ calls, rule.moves p.state call.2.state := by
  -- Before each call the others go on, and the call is allowed wherever they lead.
  induction x generalizing p calls with
  | done a =>
      obtain ⟨rfl, -, -⟩ := run
      exact fun call member => absurd member List.not_mem_nil
  | call c next ih =>
      obtain ⟨m, reply, n, later, others, ⟨answered, running⟩, rfl, run⟩ := run
      obtain ⟨orderly', moved⟩ := Later.orderly orderly others
      obtain ⟨allowed, rest⟩ := meets m.state moved orderly'.1
      obtain ⟨sound, step⟩ := rule.answered c m.state reply n.state orderly'.1 allowed answered
      have orderly'' : Pool.Orderly rule n := by
        obtain ⟨state, running'⟩ := n
        obtain rfl : running' = m.running := running
        exact orderly'.of_state sound step
      intro call member
      rcases List.mem_cons.mp member with rfl | behind
      · exact moved
      · have there := ih reply orderly'' (rest reply _ answered) run call behind
        exact rule.moves_trans _ _ _ (rule.moves_trans _ _ _ moved step) there

theorem eq_true_of_told {calls : List (Scan.Call × Lookups)} {r : Except Fault Bool}
    (listed : ∀ call ∈ calls, call.2.state.list.contains w = true) (told : Told w calls r) :
    r = .ok true := by
  cases told with
  | remembered => exact congrArg _ (listed _ List.mem_cons_self)
  | absent => exact congrArg _ (listed _ (List.mem_cons_of_mem _ List.mem_cons_self))
  | present => exact congrArg _ (listed _ (List.mem_cons_of_mem _ List.mem_cons_self))

end Lookups

theorem runs_askWatchList_iff {w : Watched} {s : Memory} {r : Except Fault Bool} :
    (∃ t, Runs answers (askWatchList (.contains w)).run s r t) ↔ r = .ok (s.list.contains w) := by
  constructor
  · rintro ⟨t, reply, u, answered, run⟩
    obtain ⟨rfl, rfl⟩ := answers_contains_iff.mp answered
    exact run.1
  · rintro rfl
    exact ⟨s, .ok (s.list.contains w), s, answers_contains_iff.mpr ⟨rfl, rfl⟩, rfl, rfl⟩

theorem runs_isWatched_iff {w : Watched} {s : Memory} {r : Except Fault Bool}
    (sound : rule.good s) :
    (∃ t, Runs answers (isWatched w).run s r t) ↔ r = .ok (s.list.contains w) := by
  have asked : answers (.watchList (.contains w)) s (.ok (s.list.contains w)) s :=
    answers_contains_iff.mpr ⟨rfl, rfl⟩
  rw [run_isWatched]
  by_cases cached : w ∈ s.cached
  · have known : answers (.knows w) s true s := ⟨(decide_eq_true cached).symm, rfl⟩
    rw [sound w cached]
    constructor
    · rintro ⟨t, _, _, ⟨rfl, rfl⟩, run⟩
      rw [decide_eq_true cached] at run
      exact run.1
    · rintro rfl
      exact ⟨s, true, s, known, rfl, rfl⟩
  · have unknown : answers (.knows w) s false s := ⟨(decide_eq_false cached).symm, rfl⟩
    constructor
    · rintro ⟨t, _, _, ⟨rfl, rfl⟩, run⟩
      rw [decide_eq_false cached] at run
      obtain ⟨_, u, answered, run⟩ := run
      obtain ⟨rfl, rfl⟩ := answers_contains_iff.mp answered
      cases listed : u.list.contains w with
      | false =>
          rw [listed] at run
          exact run.1
      | true =>
          rw [listed] at run
          obtain ⟨_, _, _, same, -⟩ := run
          exact same
    · rintro rfl
      cases listed : s.list.contains w with
      | false =>
          rw [listed] at asked
          exact ⟨s, false, s, unknown, _, s, asked, rfl, rfl⟩
      | true =>
          rw [listed] at asked
          exact ⟨_, false, s, unknown, _, s, asked, (), _, rfl, rfl, rfl⟩

/-- With the memory as without it, a lookup tells what the list holds. Amid others it asks the list
just if it does not find the wallet remembered, and tells what the list held at its last question.
Once a wallet has been registered every lookup finds it. -/
theorem isWatched_exact {start : Memory} (fresh : start.cached = []) {p : Lookups}
    (reached : Pool.Reachable answers IsLookup Drift start p) (w : Watched) :
    (∀ r, ((∃ t, Runs answers (isWatched w).run p.state r t) ↔ r = .ok (p.state.list.contains w)) ∧
      ((∃ t, Runs answers (isWatched w).run p.state r t) ↔
        ∃ t, Runs answers (askWatchList (.contains w)).run p.state r t)) ∧
    (∀ calls r q, Lookups.Finds w p calls r q → Told w calls r) ∧
    ∀ q calls r t, Lookups.Later ⟨{ p.state with list := p.state.list.register w }, p.running⟩ q →
      Lookups.Finds w q calls r t → r = .ok true := by
  have orderly := Lookups.orderly_of_reachable fresh reached
  refine ⟨fun r => ?_, fun calls r q => Lookups.told_of_finds orderly, ?_⟩
  · have remembered := runs_isWatched_iff (w := w) (r := r) orderly.1
    exact ⟨remembered, remembered.trans runs_askWatchList_iff.symm⟩
  · intro q calls r t later finds
    have registered : Drift p.state { p.state with list := p.state.list.register w } := .register w
    obtain ⟨sound, moved⟩ := calm orderly.1 registered
    obtain ⟨orderly', moved'⟩ := Lookups.Later.orderly (orderly.of_state sound moved) later
    refine Lookups.eq_true_of_told ?_ (Lookups.told_of_finds orderly' finds)
    intro call member
    have there := Lookups.moves_of_runsAmid orderly' (meets_isWatched w _) finds call member
    refine there w (moved' w ?_)
    rw [WatchList.contains_register, beq_self_eq_true, Bool.true_or]

def sampleWatched : Watched := ⟨"0x00000000000000000000000000000000000000aa", 1⟩

/-- A wallet that was looked for in vain, and has been registered since. -/
theorem isWatched_exact_registered :
    ∃ t, Runs answers (isWatched sampleWatched).run ⟨⟨[sampleWatched]⟩, []⟩ (.ok true) t := by
  have vain : Pool.Reachable answers IsLookup Drift ⟨.empty, []⟩
      ⟨⟨.empty, []⟩, [.done (.ok false)]⟩ := by
    have started : Pool.Reachable answers IsLookup Drift ⟨.empty, []⟩
        ⟨⟨.empty, []⟩, [(isWatched sampleWatched).run]⟩ :=
      Pool.Reachable.start.step (.start _ ⟨_, rfl⟩)
    refine started.of_advances [] (Program.Runs.advances ?_)
    rw [run_isWatched]
    exact ⟨false, ⟨.empty, []⟩, ⟨rfl, rfl⟩, .ok false, ⟨.empty, []⟩, ⟨rfl, rfl⟩, rfl, rfl⟩
  have reached := vain.step (.environment (.register sampleWatched))
  exact ((isWatched_exact rfl reached sampleWatched).1 (.ok true)).1.mpr rfl

end Memory

end Scan

end VaultTransfers
