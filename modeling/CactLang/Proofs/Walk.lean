import CactLang.Proofs.Places
import CactLang.Proofs.ScopeStack

/-!
# The walk and the places of a tree

While a tree is checked, the state knows where the walk is: it has the current scope,
the loops and the function. The tree says the same of every node by its place.

> `At annotated s place`: in the state `s`, the walk is at the place `place`.

The place may be read off the tree that is being checked, which knows names only, or
off the tree that comes back (`annotated`), which also has the variables and functions
the names were given.
-/

namespace CactLang.Typing

open Registry (Mirrors)

/-- What a tree has for something known: if it is annotated, just that. -/
def Shown {α : Type} (annotated : Bool) (known : α) (noted : Option α) : Prop :=
  annotated = true → noted = some known

/-- The one of two trees that places are read off: the tree that was checked, or the
annotated one that came back. -/
def seen {α : Type} (annotated : Bool) (before after : α) : α :=
  if annotated then after else before

/-- The walk is at a place of the tree. No two declarations that are in sight in one
block have the same name, so that it is always clear which one is the nearest; and names
stand for the functions that have them. -/
structure At (annotated : Bool) (s : State) (place : Place) : Prop where
  indexed : s.registry.Indexed
  sight : Mirrors (Shown annotated) s.registry s.context.scope place.sight
  names : ∀ frame ∈ place.sight, (frame.map Prod.fst).Nodup
  loops : place.loops = s.context.loops
  function : annotated = true → place.function = s.context.function

/-- Extending by two lists is extending by their concatenation. -/
theorem extend_append (place : Place) (xs ys : List (String × Option SymbolId)) :
    (place.extend xs).extend ys = place.extend (xs ++ ys) := by
  obtain ⟨sight, loops, function⟩ := place
  cases sight with
  | nil => rfl
  | cons frame outer => simp [Place.extend, Sight.extend]

theorem extend_nil (place : Place) : place.extend [] = place := by
  obtain ⟨sight, loops, function⟩ := place
  cases sight with
  | nil => rfl
  | cons frame outer => simp [Place.extend, Sight.extend]

/-- A name that a list has no value for is not among the names of the list. -/
theorem nodup_append_name {β : Type} {frame : List (String × β)} {name : String} {x : β}
    (hframe : (frame.map Prod.fst).Nodup) (hname : frame.lookup name = none) :
    ((frame ++ [(name, x)]).map Prod.fst).Nodup := by
  rw [List.map_append, List.nodup_append]
  refine ⟨hframe, by simp, ?_⟩
  intro a ha b hb hab
  obtain rfl : b = name := by simpa using hb
  subst hab
  obtain ⟨entry, hentry, rfl⟩ := List.mem_map.mp ha
  rw [List.lookup_eq_none_iff] at hname
  simpa using hname entry hentry

namespace At

variable {annotated : Bool} {s s' : State} {place : Place}
  {globals : List (String × Option SymbolId)}

/-- A check that binds nothing around it leaves the walk where it was. -/
theorem keep {α : Type} {m : Check α} {a : α} (hs : At annotated s place)
    (hm : Keeps nowhere m) (h : m s = .ok a s') : At annotated s' place := by
  obtain ⟨hcontext, hgrows⟩ := hm.ok h
  refine ⟨hgrows.indexed hs.indexed, ?_, hs.names, by rw [hcontext]; exact hs.loops,
    by rw [hcontext]; exact hs.function⟩
  rw [hcontext]
  exact hs.sight.grow hgrows (by simp [nowhere])

/-- A function may be given another entry of its name. -/
theorem updated {f : FunctionId} {old g : Signature} (hs : At annotated s place)
    (hf : s.registry.function? f = some old) (hname : g.name = old.name) :
    At annotated ⟨s.registry.updated f g, s.context⟩ place :=
  ⟨hs.indexed.updated hf hname, hs.sight.withFunctions _ _, hs.names, hs.loops, hs.function⟩

theorem inScope (hs : At annotated s place) : At annotated s.inScope place.inBlock := by
  refine ⟨hs.indexed, hs.sight.push, ?_, hs.loops, hs.function⟩
  intro frame hframe
  rcases List.mem_cons.mp hframe with rfl | hframe
  · exact List.nodup_nil
  · exact hs.names frame hframe

theorem inLoop (hs : At annotated s place) (loop : NodeId) :
    At annotated (s.inLoop loop) (place.inLoop loop) :=
  ⟨hs.indexed, hs.sight, hs.names, congrArg (loop :: ·) hs.loops, hs.function⟩

/-! ### Declarations -/

/-- A name that is bound is in sight from then on. -/
theorem bind {r r' : Registry} {c : Context} (hs : At annotated ⟨r, c⟩ place) {name : String}
    {y : Symbol} {v : SymbolId} {noted : Option SymbolId} (hnoted : Shown annotated v noted)
    (h : r.register c.scope name y = .ok (v, r')) :
    At annotated ⟨r', c⟩ (place.extend [(name, noted)]) := by
  obtain ⟨scope, hscope, hnew, _, rfl, rfl⟩ := Registry.register_ok.mp h
  -- the innermost block in sight is that of the current scope
  obtain ⟨scope', frame, outer, hscope', hsight, hlookup, _⟩ := hs.sight.top
  obtain rfl : scope = scope' := Option.some.inj (hscope.symm.trans hscope')
  have hmirror := hs.sight
  have hnames := hs.names
  rw [hsight] at hmirror hnames
  have hextend : (place.extend [(name, noted)]).sight = (frame ++ [(name, noted)]) :: outer := by
    rw [Place.extend, hsight]
    rfl
  refine ⟨(Registry.bound_grows hscope).indexed hs.indexed, ?_, ?_, hs.loops, hs.function⟩
  · rw [hextend]
    exact hmirror.bind hscope name y hnoted
  · rw [hextend]
    intro g hg
    rcases List.mem_cons.mp hg with rfl | hg
    · exact nodup_append_name (hnames frame List.mem_cons_self) ((hlookup name).mp hnew)
    · exact hnames g (List.mem_cons_of_mem _ hg)

theorem varDef {isConstant : Bool} {basic : BasicType} {d d' : VarDef}
    (hs : At annotated s place) (h : varDef isConstant basic d s = .ok d' s') :
    At annotated s' (place.extend [(seen annotated d d').declared]) := by
  obtain ⟨ty, init, v, r, _, _, hr, rfl, rfl⟩ := varDef_ok.mp h
  cases annotated with
  | true => exact hs.bind (fun _ => rfl) hr
  | false => exact hs.bind (fun he => absurd he (by simp)) hr

theorem varDefs {isConstant : Bool} {basic : BasicType} :
    ∀ {ds ds' : List VarDef} {s s' : State} {place : Place}, At annotated s place →
      varDefs isConstant basic ds s = .ok ds' s' →
      At annotated s' (place.extend ((seen annotated ds ds').map VarDef.declared))
  | [], ds', s, s', place, hs, h => by
    obtain ⟨rfl, rfl⟩ := varDefs_nil_ok.mp h
    have hnil : seen annotated ([] : List VarDef) [] = [] := ite_self _
    rw [hnil, List.map_nil, extend_nil]
    exact hs
  | d :: ds, _, s, s', place, hs, h => by
    obtain ⟨d', ds', s₁, hd, hds, rfl⟩ := varDefs_cons_ok.mp h
    have hrest := varDefs (hs.varDef hd) hds
    rw [extend_append] at hrest
    cases annotated <;> exact hrest

theorem decl {d d' : Decl} (hs : At annotated s place) (h : decl d s = .ok d' s') :
    At annotated s' (place.extend (seen annotated d d').declared) := by
  obtain ⟨defs, hdefs, rfl⟩ := decl_ok.mp h
  have hnext := hs.varDefs hdefs
  cases annotated <;> exact hnext

/-! ### Functions -/

theorem param {function : FunctionId} {p p' : Param} (hs : At annotated s place)
    (h : param function p s = .ok p' s') :
    At annotated s' (place.extend [(seen annotated p p').declared]) := by
  obtain ⟨ty, r₁, v, r₂, _, hadd, hr, rfl, rfl⟩ := param_ok.mp h
  obtain ⟨f, hf, rfl⟩ := Registry.addParameter_ok.mp hadd
  -- one more parameter does not change the name of the function
  have hs₁ := hs.updated (g := { f with parameters := f.parameters ++ [⟨p.name, ty⟩] }) hf rfl
  cases annotated with
  | true => exact hs₁.bind (fun _ => rfl) hr
  | false => exact hs₁.bind (fun he => absurd he (by simp)) hr

theorem params {function : FunctionId} :
    ∀ {ps ps' : List Param} {s s' : State} {place : Place}, At annotated s place →
      params function ps s = .ok ps' s' →
      At annotated s' (place.extend ((seen annotated ps ps').map Param.declared))
  | [], ps', s, s', place, hs, h => by
    obtain ⟨rfl, rfl⟩ := params_nil_ok.mp h
    have hnil : seen annotated ([] : List Param) [] = [] := ite_self _
    rw [hnil, List.map_nil, extend_nil]
    exact hs
  | p :: ps, _, s, s', place, hs, h => by
    obtain ⟨p', ps', s₁, hp, hps, rfl⟩ := params_cons_ok.mp h
    have hrest := params (hs.param hp) hps
    rw [extend_append] at hrest
    cases annotated <;> exact hrest

/-- Inside a function definition, before its parameters. -/
theorem inFunction (hs : At annotated s (.top globals)) (f : FuncDef) {g : FuncDef}
    (hname : s.registry.findFunction? f.name = none)
    (hg : annotated = true → g.function = some ⟨s.registry.functions.size⟩) :
    At annotated (s.inFunction f) (.inFunction globals g []) :=
  ⟨hs.inScope.indexed.declared hname, hs.inScope.sight.withFunctions _ _, hs.inScope.names,
    hs.loops, hg⟩

/-- After a function definition the walk is between items again. -/
theorem funcDef {f f' : FuncDef} (hs : At annotated s (.top globals))
    (h : funcDef f s = .ok f' s') : At annotated s' (.top globals) := by
  obtain ⟨tys, _, hgrows⟩ := funcDef_grows h
  obtain ⟨_, hname, _, _, _, _, _, _, _, rfl⟩ := funcDef_ok.mp h
  have hdeclared : (s.registry.declared (declaredSignature f tys)).Indexed :=
    hs.indexed.declared hname
  exact ⟨hgrows.indexed hdeclared, (hs.sight.withFunctions _ _).grow hgrows (by simp), hs.names,
    hs.loops, hs.function⟩

/-- Between items only the declarations in sight change. -/
theorem items :
    ∀ {is is' : List Item} {s s' : State} {globals : List (String × Option SymbolId)},
      At annotated s (.top globals) → items is s = .ok is' s' →
      ∃ globals', At annotated s' (.top globals')
  | [], _, _, _, globals, hs, h => by
    rw [(items_nil_ok.mp h).2]
    exact ⟨globals, hs⟩
  | .decl _ :: _, _, _, _, _, hs, h => by
    obtain ⟨_, _, _, hd, hrest, _⟩ := items_decl_ok.mp h
    exact items (hs.decl hd) hrest
  | .func _ :: _, _, _, _, _, hs, h => by
    obtain ⟨_, _, _, hf, hrest, _⟩ := items_func_ok.mp h
    exact items (hs.funcDef hf) hrest

end At

/-- The walk starts before the first item, where nothing is in sight. -/
theorem at_start (annotated withBuiltins : Bool) :
    At annotated (start withBuiltins) (.top []) :=
  ⟨start_indexed withBuiltins, Registry.mirrors_start withBuiltins, by simp [Place.top], rfl,
    fun _ => rfl⟩

end CactLang.Typing
