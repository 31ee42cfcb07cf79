import CactLang.Proofs.Growth

/-!
# The context comes back

While a part of a program is checked, the context changes: a block enters a scope, a
function its body, a loop one more loop. The three are undone by the same code on the
way out, whether the part passed or failed, so after any check the context is what it
was before it.

> `Restores m`: from every state, `m` leaves the context as it found it.

A frame is one of the three ways to enter, put around a check. What is checked inside
of any nesting of frames and restores its context there makes each of the frames
restore the context around it.
-/

namespace CactLang.Typing

variable {α β : Type}

/-! ## Checks that restore the context -/

/-- From the state `s`, the check leaves the context as it found it, passed or failed. -/
def RestoresAt (m : Check α) (s : State) : Prop :=
  (m.after s).context = s.context

/-- The check leaves every context as it found it. -/
def Restores (m : Check α) : Prop :=
  ∀ s, RestoresAt m s

theorem Keeps.restores {gains : ScopeId → Option ScopeId} {m : Check α} (hm : Keeps gains m) :
    Restores m :=
  fun s => (hm s).1

theorem RestoresAt.map {m : Check α} {s : State} (f : α → β) (hm : RestoresAt m s) :
    RestoresAt (f <$> m) s := by
  unfold RestoresAt
  rw [Check.after_map]
  exact hm

/-- A part in a changed context restores what it is given; the change is undone after. -/
theorem RestoresAt.within {enter : Context → Context} {leave : Context → Context → Context}
    {part : Check α} {s : State} (hpart : RestoresAt part ⟨s.registry, enter s.context⟩)
    (hleave : leave s.context (enter s.context) = s.context) :
    RestoresAt (Check.within enter leave part) s := by
  unfold RestoresAt at hpart ⊢
  rw [Check.after_within, hpart]
  exact hleave

namespace Restores

theorem pure (a : α) : Restores (Pure.pure a : Check α) :=
  fun _ => rfl

theorem look (f : Registry → Context → Except Failure α) : Restores (Check.look f) :=
  fun s => congrArg State.context (Reads.look f s)

/-- What is declared changes the registry alone. -/
theorem declare (f : Registry → Context → Except Failure (α × Registry)) :
    Restores (Check.declare f) := by
  intro s
  unfold RestoresAt Check.after Check.declare
  cases f s.registry s.context <;> rfl

theorem bind {x : Check α} {f : α → Check β} (hx : Restores x) (hf : ∀ a, Restores (f a)) :
    Restores (x >>= f) := by
  intro s
  have hs := hx s
  unfold RestoresAt at hs ⊢
  rw [Check.after_bind]
  cases hxs : x s with
  | error e s₁ =>
    rw [Check.after_of_error hxs] at hs
    exact hs
  | ok a s₁ =>
    rw [Check.after_of_ok hxs] at hs
    exact (hf a s₁).trans hs

end Restores

/-! ## Frames -/

/-- A way to enter a part of a program. -/
inductive CheckFrame where
  /-- A new scope inside the current one. -/
  | scope
  /-- A function. -/
  | function (id : FunctionId)
  /-- One more loop. -/
  | loop (id : NodeId)
  deriving DecidableEq, Repr

namespace CheckFrame

/-- Checks a part inside the frame. -/
def around : CheckFrame → Check α → Check α
  | scope, part => Prod.snd <$> Check.inScope part
  | function id, part => Check.inFunction id part
  | loop id, part => Check.inLoop id part

/-- The state a part is checked in inside the frame. -/
def enter : CheckFrame → State → State
  | scope, s => s.inScope
  | function id, s => ⟨s.registry, { s.context with function := some id }⟩
  | loop id, s => ⟨s.registry, { s.context with loops := id :: s.context.loops }⟩

/-- A frame undoes what it did to the context, if the part inside does. -/
theorem restoresAt (frame : CheckFrame) {part : Check α} {s : State}
    (hpart : RestoresAt part (frame.enter s)) : RestoresAt (frame.around part) s := by
  cases frame with
  | scope =>
    refine RestoresAt.map Prod.snd ?_
    unfold RestoresAt at hpart ⊢
    rw [Check.after_inScope, show part.after s.inScope = part.after (enter scope s) from rfl, hpart]
    rfl
  | function id =>
    simp only [around, Check.inFunction]
    exact RestoresAt.within hpart rfl
  | loop id =>
    simp only [around, Check.inLoop]
    exact RestoresAt.within hpart rfl

end CheckFrame

/-- Checks a part inside of frames, the first of them outermost. -/
def nested (frames : List CheckFrame) (body : Check α) : Check α :=
  frames.foldr CheckFrame.around body

/-- The state inside of frames that are entered one after the other. -/
def State.inside (s : State) (frames : List CheckFrame) : State :=
  frames.foldl (fun s frame => frame.enter s) s

/-- What a check gives or fails with, without the state. -/
def Check.outcome (m : Check α) (s : State) : Except Failure α :=
  match m s with
  | .ok a _ => .ok a
  | .error e _ => .error e

theorem Check.outcome_within (enter : Context → Context) (leave : Context → Context → Context)
    (part : Check α) (s : State) :
    (Check.within enter leave part).outcome s = part.outcome ⟨s.registry, enter s.context⟩ := by
  unfold Check.outcome Check.within
  cases part ⟨s.registry, enter s.context⟩ <;> rfl

theorem CheckFrame.outcome_around (frame : CheckFrame) (part : Check α) (s : State) :
    (frame.around part).outcome s = part.outcome (frame.enter s) := by
  cases frame with
  | scope =>
    unfold Check.outcome
    simp only [CheckFrame.around, Functor.map, EStateM.map, Check.inScope_apply]
    show _ = match part s.inScope with
      | .ok a _ => Except.ok a
      | .error e _ => Except.error e
    cases part s.inScope <;> rfl
  | function id =>
    simp only [CheckFrame.around, Check.inFunction]
    exact Check.outcome_within _ _ part s
  | loop id =>
    simp only [CheckFrame.around, Check.inLoop]
    exact Check.outcome_within _ _ part s

/-- Frames neither hide nor cause a failure: the whole gives what the body gives in the
state inside of them. -/
theorem outcome_nested (frames : List CheckFrame) (body : Check α) (s : State) :
    (nested frames body).outcome s = body.outcome (s.inside frames) := by
  induction frames generalizing s with
  | nil => rfl
  | cons frame frames ih =>
    calc (nested (frame :: frames) body).outcome s
        = (nested frames body).outcome (frame.enter s) := frame.outcome_around _ s
      _ = body.outcome ((frame.enter s).inside frames) := ih (frame.enter s)

theorem nested_restoresAt (frames : List CheckFrame) {body : Check α} {s : State}
    (hbody : RestoresAt body (s.inside frames)) : RestoresAt (nested frames body) s := by
  induction frames generalizing s with
  | nil => exact hbody
  | cons frame frames ih => exact frame.restoresAt (ih hbody)

theorem Restores.inScope {part : Check α} (hpart : Restores part) :
    Restores (Check.inScope part) := by
  intro s
  -- the frame drops the scope's id, which the check itself keeps
  have hs := CheckFrame.scope.restoresAt (hpart s.inScope)
  unfold RestoresAt at hs ⊢
  rw [show CheckFrame.scope.around part = Prod.snd <$> Check.inScope part from rfl,
    Check.after_map] at hs
  exact hs

/-! ## The parts of a program -/

/-- A parameter is looked at and declared, and that moves nothing in the context. -/
theorem param_restores (function : FunctionId) (p : Param) : Restores (param function p) := by
  refine (Restores.look _).bind fun ty => ?_
  refine (Restores.declare _).bind fun _ => ?_
  exact (Restores.declare _).bind fun symbol => .pure _

theorem params_restores (function : FunctionId) : ∀ ps : List Param, Restores (params function ps)
  | [] => .pure _
  | p :: ps => by
    refine (param_restores function p).bind fun x => ?_
    exact (params_restores function ps).bind fun xs => .pure _

/-- The parameters and the body are checked inside of a scope and a function. -/
theorem funcDef_restores (f : FuncDef) : Restores (funcDef f) := by
  have hparts : ∀ function : FunctionId, Restores (do
      let ps ← params function f.params
      let body ← block f.body
      return (ps, body)) := by
    intro function
    refine (params_restores function f.params).bind fun ps => ?_
    exact (block_keeps f.body).restores.bind fun body => .pure _
  refine Restores.bind (.inScope ?_) fun _ => .pure _
  refine (Restores.declare _).bind fun function => ?_
  refine Restores.bind (fun s => ?_) fun _ => .pure _
  exact (CheckFrame.function function).restoresAt (hparts function _)

/-- A part of a program that is checked on its own. -/
inductive Fragment where
  | expr (e : Expr)
  | lvalue (l : LValue)
  /-- An initializer inside of `depth` dimensions of `target`. -/
  | initializer (target : Ty) (depth : Nat) (init : Initializer)
  | stmt (t : Stmt)
  | block (b : Block)
  | decl (d : Decl)
  | funcDef (f : FuncDef)

/-- Checks the part, whatever it gives. -/
def Fragment.check : Fragment → Check Unit
  | expr e => (fun _ => ()) <$> Typing.expr e
  | lvalue l => (fun _ => ()) <$> Typing.lvalue l
  | initializer target depth init => (fun _ => ()) <$> Typing.initializer target depth init
  | stmt t => (fun _ => ()) <$> Typing.stmt t
  | block b => (fun _ => ()) <$> Typing.block b
  | decl d => (fun _ => ()) <$> Typing.decl d
  | funcDef f => (fun _ => ()) <$> Typing.funcDef f

theorem Fragment.restoresAt (part : Fragment) (s : State) : RestoresAt part.check s := by
  cases part with
  | expr e => exact (Restores.look _ s).map _
  | lvalue l => exact (Restores.look _ s).map _
  | initializer target depth init => exact (Restores.look _ s).map _
  | stmt t => exact ((stmt_keeps t).restores s).map _
  | block b => exact ((block_keeps b).restores s).map _
  | decl d => exact ((decl_keeps d).restores s).map _
  | funcDef f => exact (funcDef_restores f s).map _

/-- Every check of a part leaves the context as it found it, passed or failed. So does
every frame of any nesting, if the body does in the state inside: after the frames
`inner` the context is the one they were entered with, inside of the frames `outer`. -/
theorem context_restored :
    (∀ (part : Fragment) (s : State), (part.check.after s).context = s.context) ∧
    ∀ (frames : List CheckFrame) (body : Check α) (s : State),
      (nested frames body).outcome s = body.outcome (s.inside frames) ∧
      ((body.after (s.inside frames)).context = (s.inside frames).context →
        ∀ outer inner, frames = outer ++ inner →
          ((nested inner body).after (s.inside outer)).context = (s.inside outer).context) := by
  refine ⟨Fragment.restoresAt, fun frames body s => ⟨outcome_nested frames body s, ?_⟩⟩
  intro hbody outer inner hframes
  refine nested_restoresAt inner ?_
  have hinside : (s.inside outer).inside inner = s.inside frames := by
    rw [hframes]
    exact List.foldl_append.symm
  unfold RestoresAt
  rw [hinside]
  exact hbody

/-- `while (true) { int32 a; { continue; a = b; } }`: it fails inside of two blocks and a
loop, where `b` is not declared. -/
def failingLoop : Stmt :=
  .plain ⟨0⟩ (.loop (.plain ⟨1⟩ (.bool true) default) (.plain ⟨2⟩ (.block (.plain ⟨3⟩ [
    .decl ⟨⟨4⟩, false, .int32, [⟨⟨5⟩, "a", [], none, default, none⟩], default⟩,
    .stmt (.plain ⟨6⟩ (.block (.plain ⟨7⟩ [
      .stmt (.plain ⟨8⟩ (.next none) default),
      .stmt (.plain ⟨9⟩ (.assign (.plain ⟨10⟩ "a" [] default)
        (.plain ⟨11⟩ (.lvalue (.plain ⟨12⟩ "b" [] default)) default)) default)]
      default)) default)] default)) default)) default

/-- The state in a loop and a scope of its own. -/
def inLoopScope : State :=
  ⟨(({} : Registry).ensureGlobal.2.newScope ⟨0⟩).2, ⟨⟨1⟩, none, [⟨20⟩]⟩⟩

theorem context_restored_failingLoop :
    ((Fragment.stmt failingLoop).check.outcome inLoopScope =
        .error (.diagnostic ⟨.undeclaredVariable "b", default, some ⟨12⟩⟩) ∧
      ((Fragment.stmt failingLoop).check.after inLoopScope).context = inLoopScope.context) ∧
    ((stmt failingLoop).after (inLoopScope.inside [.loop ⟨21⟩, .scope, .function ⟨0⟩])).context =
        (inLoopScope.inside [.loop ⟨21⟩, .scope, .function ⟨0⟩]).context ∧
      ((nested [.scope, .function ⟨0⟩] (stmt failingLoop)).after
        (inLoopScope.inside [.loop ⟨21⟩])).context = (inLoopScope.inside [.loop ⟨21⟩]).context := by
  have hparts := context_restored (α := Stmt)
  have hbody : ((stmt failingLoop).after
      (inLoopScope.inside [.loop ⟨21⟩, .scope, .function ⟨0⟩])).context =
      (inLoopScope.inside [.loop ⟨21⟩, .scope, .function ⟨0⟩]).context := by decide +kernel
  refine ⟨⟨by decide +kernel, hparts.1 _ _⟩, hbody, ?_⟩
  exact (hparts.2 _ _ _).2 hbody [.loop ⟨21⟩] [.scope, .function ⟨0⟩] rfl

end CactLang.Typing
