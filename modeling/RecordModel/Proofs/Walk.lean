/-
**The walk through nested types.**

A generation goes down through the type of a field, and through the records that the type refers to.
It can be told as a walk that carries a chain of names and a counter: a record is pushed on the chain
before its fields are generated and popped behind them, by the look-ahead as well as by the
generation; each call of the generator for a type adds one to the counter before anything else, and
takes it back when it has a value.  A call whose counter is beyond the limit is refused.

The generator has neither of them: the chain and the levels that are left are arguments of its
recursion.  Here the walk is written out, with a note of every call, and shown to do what the
generator does.  The counter of a call is then one more than the number of calls that it stands in,
whatever was generated before it.

Main definitions:

* `Walk`, `WalkM` — what the walk carries;
* `Walk.generable`, `Walk.value`, `Walk.drawInstance` — the look-ahead, a value and an instance;
* `Call.CountedRight` — the counter of a call is right, and so is whether it was refused;
* `tooDeep` — the failure of a refused call;
* `Walk.Follows` — a walk that does what a computation of the generator does.

Main results:

* `Walk.generable_follows` — the look-ahead puts the chain back;
* `Walk.value_follows` — the walk for a type draws the values of the generator;
* `Walk.drawInstance_run` — **the walk for a record gives what the generator gives, and every counter
  in it is right**.
-/

import RecordModel.Proofs.Draws

set_option relaxedAutoImplicit false
set_option autoImplicit false

namespace RecordModel

open Generator Stateful

/-! ### What the walk carries -/

/-- A call of the generator for a type. -/
structure Call where
  position : Position
  type : Descriptor
  /-- The number of calls that were under way when it began. -/
  enclosing : Nat
  /-- The counter when it had been raised. -/
  depth : Nat
  /-- Whether it failed for the nesting alone, before anything was looked at. -/
  refused : Bool

/-- What a walk carries: what the generator changes, the chain of records with the innermost one
first, the counter, and the calls so far with the last one first. -/
structure Walk (σ : Type) where
  state : GeneratorState σ
  chain : List String
  depth : Nat
  calls : List Call

/-- Computations that walk through types. -/
abbrev WalkM (σ : Type) := Stateful (Walk σ) Failure

namespace Walk

variable {σ : Type}

/-- The walk before the first step. -/
def start (state : GeneratorState σ) : Walk σ := ⟨state, [], 0, []⟩

/-- A step of the generator, which knows nothing of the walk. -/
def plain {α : Type} (m : GeneratorM σ α) : WalkM σ α :=
  onPart (·.state) (fun state w => { w with state }) id m

/-- Puts a record on the chain. -/
def push (name : String) : WalkM σ Unit := modify fun w => { w with chain := name :: w.chain }

/-- Takes the last record from the chain. -/
def pop : WalkM σ Unit := modify fun w => { w with chain := w.chain.tail }

/-! ### Looking ahead -/

mutual

/-- Whether a type can be generated; `ofRecord` says which records can. -/
def generableWith (ofRecord : String → WalkM σ Bool) : Descriptor → WalkM σ Bool
  | .reference name => ofRecord name
  | .union members => anyGenerableWith ofRecord members
  | _ => return true

/-- Whether one of some members of a union is null or can be generated. -/
def anyGenerableWith (ofRecord : String → WalkM σ Bool) : List Descriptor → WalkM σ Bool
  | [] => return false
  | m :: rest => do
      if m.isNull then return true
      else if ← generableWith ofRecord m then return true
      else anyGenerableWith ofRecord rest

end

/-- Whether every type of a list can be generated. -/
def allGenerableWith (ofRecord : String → WalkM σ Bool) : List Descriptor → WalkM σ Bool
  | [] => return true
  | d :: rest => do
      if ← generableWith ofRecord d then allGenerableWith ofRecord rest else return false

/-- A computation with a record on the chain, which is taken from it behind a failure too. -/
def below {α : Type} (name : String) (m : WalkM σ α) : WalkM σ α :=
  ExceptT.mk fun w =>
    let (answer, w') := m.run { w with chain := name :: w.chain }
    (answer, { w' with chain := w'.chain.tail })

/-- Whether a record can be generated; at most so many records are pushed on the chain. -/
def recordGenerableF (limit : Nat) : Nat → String → WalkM σ Bool
  | 0, _ => return false
  | budget + 1, name => do
      if atLimit limit (← get).chain name then return false
      else
        let record ← plain (ask (Registry.fetch name))
        below record.name
          (allGenerableWith (recordGenerableF limit budget) (record.fields.map (·.type)))

/-- Whether a record can be generated. -/
def recordGenerable (limit : Nat) (name : String) : WalkM σ Bool := do
  let w ← get
  recordGenerableF limit (w.state.registry.knownNames.length * limit + 1) name

/-- Whether a type can be generated. -/
def generable (limit : Nat) (d : Descriptor) : WalkM σ Bool :=
  generableWith (recordGenerable limit) d

/-- Those of some types that can be generated, null apart. -/
def generableAlternatives (limit : Nat) : List Descriptor → WalkM σ (List Descriptor)
  | [] => return []
  | m :: rest => do
      let keep ← if m.isNull then pure false else generable limit m
      let kept ← generableAlternatives limit rest
      return if keep then m :: kept else kept

/-! ### Generating -/

variable [RandomSource σ]

/-- So many results of a computation. -/
def repeatM {α : Type} (m : WalkM σ α) : Nat → WalkM σ (List α)
  | 0 => return []
  | n + 1 => do
      let a ← m
      return a :: (← repeatM m n)

/-- So many entries with values of a computation, added to those that are there. -/
def addEntries (value : WalkM σ Value) (entries : List (String × Value)) :
    Nat → WalkM σ (List (String × Value))
  | 0 => return entries
  | n + 1 => do
      let key ← plain (freshKey (Keyed.keys entries))
      let v ← value
      addEntries value (Keyed.insert key v entries) n

/-- An entry of an instance; a field that is not given a value gets one from `value`. -/
def entryWith (value : Field → WalkM σ Value) (given : List (String × Value)) (field : Field) :
    WalkM σ (String × Value) :=
  match Keyed.get? field.name given with
  | some v => return (field.name, v)
  | none => do return (field.name, ← value field)

/-- An instance of a record; fields that are not given a value get one from `value`.  A failure
leaves the record on the chain. -/
def instanceWith (value : Position → Descriptor → WalkM σ Value) (given : List (String × Value))
    (name : String) : WalkM σ (Instance Value) := do
  let record ← plain (ask (Registry.fetch name))
  push record.name
  let fields ← record.fields.mapM
    (entryWith (fun field => value ⟨record.name, some field.name⟩ field.type) given)
  pop
  return ⟨record.name, fields⟩

/-- A value of one of some types. -/
def chosenWith (value : Descriptor → WalkM σ Value) (position : Position)
    (candidates : List Descriptor) : WalkM σ Value := do
  match ← plain (choose? candidates) with
  | some m => value m
  | none => plain (fail position .noAlternative)

/-- A value of a union or an optional type. -/
def unionWith (s : Settings) (value : Descriptor → WalkM σ Value) (position : Position)
    (d : Descriptor) : WalkM σ Value := do
  let candidates ← generableAlternatives s.selfReferenceDepth d.alternatives
  if candidates.isEmpty then
    if d.alternatives.any Descriptor.isNull then return .null
    else plain (fail position (.noGenerableMember d s.selfReferenceDepth))
  else
    let absent ← if d.isOptional then plain (chance s.nullProbability) else pure false
    if absent then return .null else chosenWith value position candidates

/-- What a call for a type does; `value` is the call for the types inside it. -/
def shape (s : Settings) (value : Position → Descriptor → WalkM σ Value) (position : Position)
    (d : Descriptor) : WalkM σ Value :=
  match d with
  | .primitive kind => plain (primitive s kind)
  | .logical kind => plain (logical s position kind)
  | .fixed type => do return .fixed (← plain (draw (.bytes type.size)))
  | .enum type => do
      match ← plain (choose? type.symbols) with
      | some symbol => return .enum symbol
      | none => plain (fail position (.noSymbols type.name))
  | .array items => do
      if ← generable s.selfReferenceDepth items then
        let n ← plain (count s.minItems s.maxItems)
        return .array (← repeatM (value position items) n)
      else return .array []
  | .map values => do
      if ← generable s.selfReferenceDepth values then
        let n ← plain (count s.minItems s.maxItems)
        return .map (← addEntries (value position values) [] n)
      else return .map []
  | .union _ => unionWith s (value position) position d
  | .optional _ => unionWith s (value position) position d
  | .reference name => do
      if ← generable s.selfReferenceDepth d then
        return .record (← instanceWith value [] name)
      else plain (fail position (.noTerminalCase name s.selfReferenceDepth))

/-- A value of a type, inside so many calls.  Calls below one another beyond a budget end it; with
more of it than there are levels that never happens. -/
def value (s : Settings) : Nat → Nat → Position → Descriptor → WalkM σ Value
  | 0, _, _, _ => throw (.breakdown .emptyRange)
  | budget + 1, enclosing, position, d => do
      modify fun w => { w with depth := w.depth + 1 }
      let w ← get
      let refused := decide (s.nestingDepth < w.depth)
      set { w with calls := ⟨position, d, enclosing, w.depth, refused⟩ :: w.calls }
      if refused then plain (fail position (.nestingTooDeep s.nestingDepth))
      else
        let v ← shape s (value s budget (enclosing + 1)) position d
        modify fun w => { w with depth := w.depth - 1 }
        return v

/-- An instance of a record, with given values for some of its fields. -/
def drawInstance (s : Settings) (name : String) (given : List (String × Value)) :
    WalkM σ (Instance Value) := do
  plain (checkSettings s name)
  let record ← plain (ask (Registry.fetch name))
  let unknown := (Keyed.keys given).filter fun k => (record.field? k).isNone
  match leastName? unknown with
  | some field => throw (.error (.generation name (some field) .unknownOverride))
  | none => instanceWith (value s (s.nestingDepth + 1) 0) given name

end Walk

/-- The counter of a call is one more than the number of calls that it stands in, and it is refused
exactly when it stands in as many as there may be. -/
def Call.CountedRight (s : Settings) (c : Call) : Prop :=
  c.depth = c.enclosing + 1 ∧ (c.refused = true ↔ s.nestingDepth ≤ c.enclosing)

/-- The failure of a refused call at a position. -/
def tooDeep (s : Settings) (position : Position) : Failure :=
  position.failure (.nestingTooDeep s.nestingDepth)

/-- The failure of a refused call tells its position. -/
theorem tooDeep_injective {s : Settings} {p q : Position} (h : tooDeep s p = tooDeep s q) :
    p = q := by
  simp only [tooDeep, Position.failure, Failure.error.injEq, Error.generation.injEq] at h
  obtain ⟨hrecord, hfield, -⟩ := h
  cases p
  cases q
  exact congrArg₂ Position.mk hrecord hfield

/-! ### Walks that follow the generator -/

namespace Walk

variable {σ : Type} {α β : Type} {answer : String → Except Error Record} {s : Settings}
  {chain : List String} {depth : Nat}

/-- The failure is that of a refused call only if it is what the registry answers for some name. -/
def OfElsewhere (answer : String → Except Error Record) (s : Settings) (e : Failure) : Prop :=
  ∀ position, e = tooDeep s position → ∃ name e', answer name = .error e' ∧ e = .error e'

/-- What came of a walk is what came of a computation of the generator.  With a value the chain and
the counter are as they were; the calls that were added are counted right, a refused one is the
failure of the walk, and such a failure comes from a refused one. -/
structure Traced (answer : String → Except Error Record) (s : Settings) (w : Walk σ)
    (walked : Except Failure α × Walk σ) (plain : Except Failure α × GeneratorState σ) : Prop where
  same : walked.1 = plain.1
  state : walked.2.state = plain.2
  knows : Knows answer walked.2.state
  restored : ∀ a, walked.1 = .ok a → walked.2.chain = w.chain ∧ walked.2.depth = w.depth
  counted : ∀ c ∈ walked.2.calls, c ∈ w.calls ∨
    c.CountedRight s ∧ (c.refused = true → walked.1 = .error (tooDeep s c.position))
  refused : ∀ e, walked.1 = .error e → OfElsewhere answer s e ∨
    ∃ c ∈ walked.2.calls, c.refused = true ∧ e = tooDeep s c.position

/-- With the chain and the counter the walk does what the computation does. -/
def Follows (answer : String → Except Error Record) (s : Settings) (chain : List String)
    (depth : Nat) (m : WalkM σ α) (n : GeneratorM σ α) : Prop :=
  ∀ w : Walk σ, Knows answer w.state → w.chain = chain → w.depth = depth →
    Traced answer s w (m.run w) (n.run w.state)

namespace OfElsewhere

theorem breakdown (b : Breakdown) : OfElsewhere answer s (.breakdown b) := by
  intro position h
  cases h

theorem fault (position : Position) {fault : GenerationFault}
    (h : ∀ n, fault ≠ .nestingTooDeep n) : OfElsewhere answer s (position.failure fault) := by
  intro position' he
  have hfault : fault = .nestingTooDeep s.nestingDepth := by
    simp only [tooDeep, Position.failure, Failure.error.injEq, Error.generation.injEq] at he
    exact he.2.2
  exact absurd hfault (h _)

theorem unresolved {name : String} {e : Error} (h : answer name = .error e) :
    OfElsewhere answer s (.error e) := fun _ _ => ⟨name, e, h, rfl⟩

end OfElsewhere

namespace Follows

protected theorem pure (a : α) :
    Follows answer s chain depth (pure a : WalkM σ α) (pure a : GeneratorM σ α) := by
  intro w hk hc hd
  exact ⟨rfl, rfl, hk, fun _ _ => ⟨rfl, rfl⟩, fun c h => Or.inl h, fun _ h => (by cases h)⟩

/-- A step of the generator leaves the walk alone. -/
protected theorem plain {n : GeneratorM σ α} {Q : α → Prop} {E : Failure → Prop}
    (h : Gives (Knows answer) n Q E) (hE : ∀ e, E e → OfElsewhere answer s e) :
    Follows answer s chain depth (plain n) n := by
  intro w hk hc hd
  obtain ⟨hknows, houtcome⟩ := h w.state hk
  have hrun : (Walk.plain n).run w =
      ((n.run w.state).1, { w with state := (n.run w.state).2 }) := by
    rw [Walk.plain, run_onPart]
    cases (n.run w.state).1 <;> rfl
  rw [hrun]
  refine ⟨rfl, rfl, hknows, fun _ _ => ⟨rfl, rfl⟩, fun c h => Or.inl h, fun e he => Or.inl ?_⟩
  rw [he] at houtcome
  exact hE e houtcome

protected theorem throw {e : Failure} (h : OfElsewhere answer s e) :
    Follows answer s chain depth (throw e : WalkM σ α) (throw e : GeneratorM σ α) := by
  intro w hk hc hd
  refine ⟨rfl, rfl, hk, fun _ h => (by cases h), fun c h => Or.inl h, fun e' he => Or.inl ?_⟩
  cases he
  exact h

protected theorem fail {position : Position} {fault : GenerationFault}
    (h : ∀ n, fault ≠ .nestingTooDeep n) :
    Follows answer s chain depth (Walk.plain (fail position fault) : WalkM σ α)
      (fail position fault) :=
  Follows.plain (Q := fun _ => True) (Gives.throw (OfElsewhere.fault position h)) fun _ he => he

protected theorem fetch (name : String) :
    Follows answer s chain depth (Walk.plain (ask (Registry.fetch name)) : WalkM σ Record)
      (ask (Registry.fetch name)) :=
  Follows.plain (Gives.onPart (fun _ _ => rfl) (fetch_gives answer name)
    fun _ he => OfElsewhere.unresolved he) fun _ he => he

/-- A step after another. -/
protected theorem bind {m : WalkM σ α} {n : GeneratorM σ α} {f : α → WalkM σ β}
    {g : α → GeneratorM σ β} (hm : Follows answer s chain depth m n)
    (hf : ∀ a, Follows answer s chain depth (f a) (g a)) :
    Follows answer s chain depth (m >>= f) (n >>= g) := by
  intro w hk hc hd
  obtain ⟨hanswer, hstate, hknows, hrestored, hcounted, hrefused⟩ := hm w hk hc hd
  rw [run_bind, run_bind]
  rcases hw : m.run w with ⟨x, w'⟩
  rcases hn : n.run w.state with ⟨y, t⟩
  rw [hw, hn] at hanswer hstate
  rw [hw] at hknows hrestored hcounted hrefused
  cases hanswer
  cases hstate
  cases x with
  | error e =>
      refine ⟨rfl, rfl, hknows, fun _ h => (by cases h), fun c hmem => ?_, fun e' he => ?_⟩
      · rcases hcounted c hmem with hmem | ⟨hright, hfails⟩
        · exact Or.inl hmem
        · exact Or.inr ⟨hright, fun h => congrArg Except.error (Except.error.inj (hfails h))⟩
      · cases he
        exact hrefused e rfl
  | ok a =>
      obtain ⟨hchain, hdepth⟩ := hrestored a rfl
      have h := hf a w' hknows (hchain.trans hc) (hdepth.trans hd)
      refine ⟨h.same, h.state, h.knows, fun b hb => ?_, fun c hmem => ?_, h.refused⟩
      · exact ⟨(h.restored b hb).1.trans hchain, (h.restored b hb).2.trans hdepth⟩
      · rcases h.counted c hmem with hmem | hright
        · rcases hcounted c hmem with hmem | ⟨hright, hfails⟩
          · exact Or.inl hmem
          · -- the first step gave a value, so that none of its calls was refused
            exact Or.inr ⟨hright, fun h => (by cases hfails h)⟩
        · exact Or.inr hright

/-- One step for each of some things. -/
protected theorem mapM {f : α → WalkM σ β} {g : α → GeneratorM σ β} {as : List α}
    (h : ∀ a ∈ as, Follows answer s chain depth (f a) (g a)) :
    Follows answer s chain depth (as.mapM f) (as.mapM g) := by
  induction as with
  | nil => exact Follows.pure []
  | cons a as ih =>
      rw [List.mapM_cons, List.mapM_cons]
      refine Follows.bind (h a (List.mem_cons_self ..)) fun b => ?_
      refine Follows.bind (ih fun a' ha' => h a' (List.mem_cons_of_mem _ ha')) fun bs => ?_
      exact Follows.pure (b :: bs)

/-- A step that asks for the walk may use what is known of it. -/
protected theorem get {f : Walk σ → WalkM σ α} {n : GeneratorM σ α}
    (h : ∀ w : Walk σ, w.chain = chain →
      ∃ n' : GeneratorM σ α, n.run w.state = n'.run w.state ∧
        Follows answer s chain depth (f w) n') :
    Follows answer s chain depth (do let w ← get; f w) n := by
  intro w hk hc hd
  obtain ⟨n', hn, hf⟩ := h w hc
  rw [hn]
  exact hf w hk hc hd

/-- A record is on the chain for the computation alone. -/
protected theorem below {name : String} {m : WalkM σ α} {n : GeneratorM σ α}
    (h : Follows answer s (name :: chain) depth m n) :
    Follows answer s chain depth (Walk.below name m) n := by
  intro w hk hc hd
  obtain ⟨hanswer, hstate, hknows, hrestored, hcounted, hrefused⟩ :=
    h { w with chain := name :: w.chain } hk (congrArg (name :: ·) hc) hd
  refine ⟨hanswer, hstate, hknows, fun a ha => ?_, hcounted, hrefused⟩
  obtain ⟨hchain, hdepth⟩ := hrestored a ha
  exact ⟨congrArg List.tail hchain, hdepth⟩

/-- The walk goes on from a changed one, and is changed back when there is a value. -/
theorem changed {m : WalkM σ α} {n : GeneratorM σ α} (h : Follows answer s chain depth m n)
    (w w₀ : Walk σ) (hstate : w₀.state = w.state) (hk : Knows answer w.state)
    (hc : w₀.chain = chain) (hd : w₀.depth = depth)
    (hnew : ∀ c ∈ w₀.calls, c ∈ w.calls ∨ c.CountedRight s ∧ c.refused = false)
    (back : Walk σ → Walk σ)
    (hkeeps : ∀ w', (back w').state = w'.state ∧ (back w').calls = w'.calls)
    (hback : ∀ w' : Walk σ, w'.chain = w₀.chain → w'.depth = w₀.depth →
      (back w').chain = w.chain ∧ (back w').depth = w.depth) (f : α → β) :
    Traced answer s w ((do let a ← m; modify back; return f a : WalkM σ β).run w₀)
      ((do let a ← n; return f a : GeneratorM σ β).run w.state) := by
  obtain ⟨hsame, hafter, hknows, hrestored, hcounted, hrefused⟩ := h w₀ (hstate ▸ hk) hc hd
  rw [hstate] at hsame hafter
  rw [run_bind, run_bind]
  rcases hw : m.run w₀ with ⟨x, w'⟩
  rcases hn : n.run w.state with ⟨y, t⟩
  rw [hw, hn] at hsame hafter
  rw [hw] at hknows hrestored hcounted hrefused
  cases hsame
  cases hafter
  cases x with
  | error e =>
      refine ⟨rfl, rfl, hknows, fun _ h => (by cases h), fun c hmem => ?_, fun e' he => ?_⟩
      · rcases hcounted c hmem with hmem | ⟨hright, hfails⟩
        · rcases hnew c hmem with hmem | ⟨hright, hopen⟩
          · exact Or.inl hmem
          · exact Or.inr ⟨hright, fun h => (by rw [hopen] at h; cases h)⟩
        · exact Or.inr ⟨hright, fun h => congrArg Except.error (Except.error.inj (hfails h))⟩
      · cases he
        exact hrefused e rfl
  | ok a =>
      obtain ⟨hchain, hdepth⟩ := hrestored a rfl
      obtain ⟨hkstate, hkcalls⟩ := hkeeps w'
      change Traced answer s w (.ok (f a), back w') (.ok (f a), w'.state)
      refine ⟨rfl, hkstate, hkstate ▸ hknows, fun _ _ => hback w' hchain hdepth, fun c hmem => ?_,
        fun _ h => (by cases h)⟩
      rw [hkcalls] at hmem
      rcases hcounted c hmem with hmem | ⟨hright, hfails⟩
      · rcases hnew c hmem with hmem | ⟨hright, hopen⟩
        · exact Or.inl hmem
        · exact Or.inr ⟨hright, fun h => (by rw [hopen] at h; cases h)⟩
      · exact Or.inr ⟨hright, fun h => (by cases hfails h)⟩

/-- A record is on the chain until there is a value. -/
protected theorem pushed {name : String} {m : WalkM σ α} {n : GeneratorM σ α}
    (h : Follows answer s (name :: chain) depth m n) (f : α → β) :
    Follows answer s chain depth (do push name; let a ← m; pop; return f a)
      (do let a ← n; return f a) := by
  intro w hk hc hd
  exact h.changed w { w with chain := name :: w.chain } rfl hk (congrArg (name :: ·) hc) hd
    (fun c hmem => Or.inl hmem) (fun w => { w with chain := w.chain.tail }) (fun _ => ⟨rfl, rfl⟩)
    (fun w' hchain hdepth => ⟨congrArg List.tail hchain, hdepth⟩) f

end Follows

/-! ### Looking ahead -/

/-- A question after another is one question. -/
theorem ask_bind (m : RegistryM α) (g : α → RegistryM β) :
    (ask (m >>= g) : GeneratorM σ β) = ask m >>= fun a => ask (g a) := by
  refine funext fun t => ?_
  change (ask (m >>= g) : GeneratorM σ β).run t = (ask m >>= fun a => ask (g a)).run t
  rw [run_bind, ask, ask, run_onPart, run_onPart, run_bind]
  rcases m.run t.registry with ⟨_ | a, r⟩ <;> rfl

section

variable {limit : Nat} {ofRecord : String → WalkM σ Bool} {ofName : String → RegistryM Bool}

theorem generableWith_of_isTerminal {d : Descriptor} (hd : d.isTerminal = true) :
    generableWith ofRecord d = pure true := by
  cases d <;> simp_all [generableWith, Descriptor.isTerminal]

mutual

/-- A type is looked at as its records are. -/
theorem generableWith_follows
    (h : ∀ name, Follows answer s chain depth (ofRecord name) (ask (ofName name)))
    (d : Descriptor) :
    Follows answer s chain depth (generableWith ofRecord d)
      (ask (RecordModel.generableWith ofName d)) := by
  cases d with
  | reference name =>
      rw [generableWith, RecordModel.generableWith]
      exact h name
  | union members =>
      rw [generableWith, RecordModel.generableWith]
      exact anyGenerableWith_follows h members
  | _ =>
      rw [generableWith_of_isTerminal rfl, RecordModel.generableWith_of_isTerminal rfl]
      exact Follows.pure true

/-- The members of a union are looked at until one can be generated. -/
theorem anyGenerableWith_follows
    (h : ∀ name, Follows answer s chain depth (ofRecord name) (ask (ofName name)))
    (ms : List Descriptor) :
    Follows answer s chain depth (anyGenerableWith ofRecord ms)
      (ask (RecordModel.anyGenerableWith ofName ms)) := by
  cases ms with
  | nil =>
      rw [anyGenerableWith, RecordModel.anyGenerableWith]
      exact Follows.pure false
  | cons m rest =>
      rw [anyGenerableWith, RecordModel.anyGenerableWith]
      split
      · exact Follows.pure true
      · rw [ask_bind]
        refine Follows.bind (generableWith_follows h m) fun b => ?_
        cases b with
        | true => exact Follows.pure true
        | false => exact anyGenerableWith_follows h rest

end

/-- All types of a list are looked at until one cannot be generated. -/
theorem allGenerableWith_follows
    (h : ∀ name, Follows answer s chain depth (ofRecord name) (ask (ofName name)))
    (ds : List Descriptor) :
    Follows answer s chain depth (allGenerableWith ofRecord ds)
      (ask (RecordModel.allGenerableWith ofName ds)) := by
  induction ds with
  | nil => exact Follows.pure true
  | cons d rest ih =>
      rw [allGenerableWith, RecordModel.allGenerableWith, ask_bind]
      refine Follows.bind (generableWith_follows h d) fun b => ?_
      cases b with
      | true => exact ih
      | false => exact Follows.pure false

/-- A record is looked at with the chain that the walk carries. -/
theorem recordGenerableF_follows (budget : Nat) (chain : List String) (name : String) :
    Follows answer s chain depth (recordGenerableF (σ := σ) limit budget name)
      (ask (RecordModel.recordGenerableF limit budget chain name)) := by
  induction budget generalizing chain name with
  | zero => exact Follows.pure false
  | succ budget ih =>
      refine Follows.get fun w hc => ⟨_, rfl, ?_⟩
      rw [hc, RecordModel.recordGenerableF]
      split
      · exact Follows.pure false
      · rw [ask_bind]
        refine Follows.bind (Follows.fetch name) fun record => ?_
        exact Follows.below (allGenerableWith_follows (ih (record.name :: chain)) _)

/-- **The look-ahead does what that of the generator does, and puts the chain back.** -/
theorem generable_follows (limit : Nat) (chain : List String) (d : Descriptor) :
    Follows answer s chain depth (generable (σ := σ) limit d)
      (ask (RecordModel.generable limit chain d)) := by
  refine generableWith_follows (fun name => ?_) d
  refine Follows.get fun w _ => ⟨ask (RecordModel.recordGenerableF limit
    (w.state.registry.knownNames.length * limit + 1) chain name), rfl, ?_⟩
  exact recordGenerableF_follows _ chain name

/-- The alternatives are looked at one after another. -/
theorem generableAlternatives_follows (limit : Nat) (chain : List String) (ms : List Descriptor) :
    Follows answer s chain depth (generableAlternatives (σ := σ) limit ms)
      (ask (Generator.generableAlternatives limit chain ms)) := by
  induction ms with
  | nil => exact Follows.pure []
  | cons m rest ih =>
      -- what follows when it is known whether the first one is kept
      have hrest (keep : Bool) : Follows answer s chain depth
          (do
            let kept ← generableAlternatives (σ := σ) limit rest
            return if keep then m :: kept else kept)
          (ask do
            let kept ← Generator.generableAlternatives limit chain rest
            return if keep then m :: kept else kept) := by
        rw [ask_bind]
        exact Follows.bind ih fun kept => Follows.pure _
      rw [generableAlternatives, Generator.generableAlternatives]
      split
      · exact hrest false
      · rw [ask_bind]
        exact Follows.bind (generable_follows limit chain m) hrest

end

/-! ### Generating -/

section

variable {levels : Nat} {position : Position} {d : Descriptor}

theorem repeatM_follows {m : WalkM σ α} {n : GeneratorM σ α} (h : Follows answer s chain depth m n)
    (k : Nat) : Follows answer s chain depth (repeatM m k) (Generator.repeatM n k) := by
  induction k with
  | zero => exact Follows.pure []
  | succ k ih => exact Follows.bind h fun a => Follows.bind ih fun as => Follows.pure (a :: as)

theorem addEntries_follows [RandomSource σ] {m : WalkM σ Value} {n : GeneratorM σ Value}
    (h : Follows answer s chain depth m n) (entries : List (String × Value)) (k : Nat) :
    Follows answer s chain depth (addEntries m entries k) (Generator.addEntries n entries k) := by
  induction k generalizing entries with
  | zero => exact Follows.pure entries
  | succ k ih =>
      have hkey : Gives (Knows (σ := σ) answer) (freshKey (Keyed.keys entries))
          (fun key => key ∉ Keyed.keys entries) (fun _ => False) := freshKey_gives _
      refine Follows.bind (Follows.plain hkey fun _ he => he.elim) fun key => ?_
      exact Follows.bind h fun v => ih _

theorem entryWith_follows {value : Field → WalkM σ Value} {value' : Field → GeneratorM σ Value}
    (h : ∀ f, Follows answer s chain depth (value f) (value' f)) (given : List (String × Value))
    (f : Field) :
    Follows answer s chain depth (entryWith value given f)
      (Generator.entryWith value' given f) := by
  unfold entryWith Generator.entryWith
  cases Keyed.get? f.name given with
  | some v => exact Follows.pure _
  | none => exact Follows.bind (h f) fun v => Follows.pure _

theorem instanceWith_follows {value : Position → Descriptor → WalkM σ Value}
    {value' : List String → Position → Descriptor → GeneratorM σ Value}
    (h : ∀ chain position d,
      Follows answer s chain depth (value position d) (value' chain position d))
    (given : List (String × Value)) (name : String) :
    Follows answer s chain depth (instanceWith value given name)
      (Generator.instanceWith value' given chain name) := by
  refine Follows.bind (Follows.fetch name) fun record => ?_
  refine Follows.pushed (Follows.mapM fun f _ => ?_) (Instance.mk record.name)
  exact entryWith_follows (fun f => h (record.name :: chain) ⟨record.name, some f.name⟩ f.type)
    given f

theorem choose?_follows [RandomSource σ] (xs : List α) :
    Follows answer s chain depth (plain (choose? xs) : WalkM σ (Option α)) (choose? xs) :=
  Follows.plain (choose?_gives xs (E := fun _ => False)) fun _ he => he.elim

theorem count_follows [RandomSource σ] (least most : Nat) :
    Follows answer s chain depth (plain (count least most) : WalkM σ Nat) (count least most) :=
  Follows.plain (count_gives least most) fun _ he => he.2 ▸ OfElsewhere.breakdown _

theorem chosenWith_follows [RandomSource σ] {value : Descriptor → WalkM σ Value}
    {value' : Descriptor → GeneratorM σ Value}
    (h : ∀ d, Follows answer s chain depth (value d) (value' d)) (candidates : List Descriptor) :
    Follows answer s chain depth (chosenWith value position candidates)
      (Generator.chosenWith value' position candidates) := by
  refine Follows.bind (choose?_follows candidates) fun m => ?_
  cases m with
  | none => exact Follows.fail (by simp)
  | some m => exact h m

theorem unionWith_follows [RandomSource σ] {value : Descriptor → WalkM σ Value}
    {value' : Descriptor → GeneratorM σ Value}
    (h : ∀ d, Follows answer s chain depth (value d) (value' d)) :
    Follows answer s chain depth (unionWith s value position d)
      (Generator.unionWith s value' chain position d) := by
  refine Follows.bind (generableAlternatives_follows _ chain _) fun candidates => ?_
  split
  · split
    · exact Follows.pure _
    · exact Follows.fail (by simp)
  · split
    · refine Follows.bind (Follows.plain (chance_gives s.nullProbability) ?_) fun absent => ?_
      · rintro e ⟨-, rfl⟩
        exact OfElsewhere.breakdown _
      · cases absent with
        | true => exact Follows.pure _
        | false => exact chosenWith_follows h candidates
    · exact chosenWith_follows h candidates

/-- A call does what the generator does at a level, if the calls inside it do so at the next. -/
theorem shape_follows [RandomSource σ] {value : Position → Descriptor → WalkM σ Value}
    (h : ∀ chain position d,
      Follows answer s chain depth (value position d) (valueF s levels chain position d)) :
    Follows answer s chain depth (shape s value position d)
      (valueF s (levels + 1) chain position d) := by
  cases d with
  | primitive kind =>
      refine Follows.plain (primitive_gives s kind) ?_
      rintro e ⟨b, -, rfl⟩
      exact OfElsewhere.breakdown b
  | logical kind =>
      refine Follows.plain (logical_gives s position kind) ?_
      rintro e (⟨fault, hfault, rfl⟩ | ⟨b, -, rfl⟩)
      · exact OfElsewhere.fault position fun n hn => (by subst hn; cases hfault)
      · exact OfElsewhere.breakdown b
  | fixed type =>
      have hdraw : Gives (Knows (σ := σ) answer) (draw (.bytes type.size)) (fun _ => True)
          (fun _ => False) := anyDraw_gives _
      exact Follows.bind (Follows.plain hdraw fun _ he => he.elim) fun bs => Follows.pure _
  | enum type =>
      refine Follows.bind (choose?_follows type.symbols) fun symbol => ?_
      cases symbol with
      | none => exact Follows.fail (by simp)
      | some symbol => exact Follows.pure _
  | array items =>
      refine Follows.bind (generable_follows _ chain items) fun b => ?_
      cases b with
      | false => exact Follows.pure _
      | true =>
          refine Follows.bind (count_follows s.minItems s.maxItems) fun n => ?_
          exact Follows.bind (repeatM_follows (h chain position items) n) fun vs => Follows.pure _
  | map values =>
      refine Follows.bind (generable_follows _ chain values) fun b => ?_
      cases b with
      | false => exact Follows.pure _
      | true =>
          refine Follows.bind (count_follows s.minItems s.maxItems) fun n => ?_
          exact Follows.bind (addEntries_follows (h chain position values) [] n)
            fun es => Follows.pure _
  | union members => exact unionWith_follows fun m => h chain position m
  | optional inner => exact unionWith_follows fun m => h chain position m
  | reference name =>
      refine Follows.bind (generable_follows _ chain (.reference name)) fun b => ?_
      cases b with
      | false => exact Follows.fail (by simp)
      | true => exact Follows.bind (instanceWith_follows h [] name) fun i => Follows.pure _

/-- **The walk for a type draws what the generator draws with the levels that are left.** -/
theorem value_follows [RandomSource σ] (budget enclosing : Nat) (chain : List String)
    (position : Position) (d : Descriptor) (hb : s.nestingDepth - enclosing < budget) :
    Follows answer s chain enclosing (value (σ := σ) s budget enclosing position d)
      (valueF s (s.nestingDepth - enclosing) chain position d) := by
  induction budget generalizing enclosing chain position d with
  | zero => exact absurd hb (Nat.not_lt_zero _)
  | succ budget ih =>
      intro w hk hc hd
      let call : Call :=
        ⟨position, d, enclosing, w.depth + 1, decide (s.nestingDepth < w.depth + 1)⟩
      have hright : call.CountedRight s :=
        ⟨congrArg (· + 1) hd, by rw [decide_eq_true_iff, hd, Nat.lt_succ_iff]⟩
      by_cases hdeep : s.nestingDepth ≤ enclosing
      · -- no levels are left, and the counter is beyond the limit
        have hrefused : call.refused = true := hright.2.mpr hdeep
        rw [Nat.sub_eq_zero_of_le hdeep, valueF_zero]
        change Traced answer s w ((if call.refused = true then
          plain (fail position (.nestingTooDeep s.nestingDepth)) else _ : WalkM σ Value).run
            { w with depth := w.depth + 1, calls := call :: w.calls }) _
        rw [if_pos hrefused]
        refine ⟨rfl, rfl, hk, fun _ h => (by cases h), fun c hmem => ?_, fun e he => ?_⟩
        · rcases List.mem_cons.mp hmem with rfl | hmem
          · exact Or.inr ⟨hright, fun _ => rfl⟩
          · exact Or.inl hmem
        · exact Or.inr ⟨call, List.mem_cons_self .., hrefused, (Except.error.inj he).symm⟩
      · have hopen : call.refused = false := Bool.eq_false_iff.mpr (mt hright.2.mp hdeep)
        have hlevels : s.nestingDepth - enclosing = s.nestingDepth - (enclosing + 1) + 1 := by omega
        have hshape : Follows answer s chain (enclosing + 1)
            (shape s (value (σ := σ) s budget (enclosing + 1)) position d)
            (valueF s (s.nestingDepth - enclosing) chain position d) := by
          rw [hlevels]
          exact shape_follows fun chain position d => ih _ chain position d (by omega)
        change Traced answer s w ((if call.refused = true then _ else do
          let v ← shape s (value s budget (enclosing + 1)) position d
          modify fun w => { w with depth := w.depth - 1 }
          return v : WalkM σ Value).run
            { w with depth := w.depth + 1, calls := call :: w.calls }) _
        rw [if_neg (by rw [hopen]; exact Bool.false_ne_true),
          ← bind_pure (valueF s (s.nestingDepth - enclosing) chain position d)]
        refine hshape.changed w { w with depth := w.depth + 1, calls := call :: w.calls } rfl hk hc
          (congrArg (· + 1) hd) (fun c hmem => ?_) (fun w => { w with depth := w.depth - 1 })
          (fun _ => ⟨rfl, rfl⟩)
          (fun w' hchain hdepth => ⟨hchain, congrArg (· - 1) hdepth⟩) id
        rcases List.mem_cons.mp hmem with rfl | hmem
        · exact Or.inr ⟨hright, hopen⟩
        · exact Or.inl hmem

/-- **The walk for a record gives what the generator gives, and every counter in it is right**: a
call is refused exactly when it stands in as many calls as there may be.  A refused call is the
failure of the walk, and where such a failure is not an answer of the registry there is a refused
call. -/
theorem drawInstance_run [RandomSource σ] (s : Settings) (name : String)
    (given : List (String × Value)) (state : GeneratorState σ) :
    Traced state.registry.answer s (start state) ((drawInstance s name given).run (start state))
      ((RecordModel.drawInstance s name given).run state) := by
  have hfollows : Follows state.registry.answer s [] 0 (drawInstance (σ := σ) s name given)
      (RecordModel.drawInstance s name given) := by
    have hsettings : Gives (Knows (σ := σ) state.registry.answer) (checkSettings s name)
        (fun _ => True) (OfElsewhere state.registry.answer s) := by
      unfold checkSettings
      split
      · exact Gives.throw (OfElsewhere.fault ⟨name, none⟩ (by simp))
      · exact Gives.pure trivial
    refine Follows.bind (Follows.plain hsettings fun _ he => he) fun _ => ?_
    refine Follows.bind (Follows.fetch name) fun record => ?_
    dsimp only
    cases leastName? ((Keyed.keys given).filter fun k => (record.field? k).isNone) with
    | some field =>
        exact Follows.throw (OfElsewhere.fault ⟨name, some field⟩ (by simp))
    | none =>
        exact instanceWith_follows (fun chain position d =>
          value_follows (s.nestingDepth + 1) 0 chain position d (Nat.lt_succ_self _)) given name
  exact hfollows (start state) rfl rfl rfl

end

end Walk

end RecordModel
