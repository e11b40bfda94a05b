import Schemata.Pass.Request

/-!
# Calls

An occurrence leads to the types inside it, a definition to its ancestors, to its members and
to the types that directives name.  Whatever a step asks of the compiler below it is among
these calls, which are read off the universe without a pass.
-/
namespace Schemata

/-- What a step of a pass asks of the compiler below it. -/
inductive Call where
  | resolve (element : Option Element) (t : TypeRef) (scope : Scope)
  | define (element : Option Element) (t : TypeRef) (scope : Scope)

namespace Directive

/-- The types that a discriminator maps to. -/
def discriminatorNames (d : Directive) : List String :=
  match d.section? "discriminator" with
  | some inner => ((inner.section? "mappingSchemas").getD []).filterMap (Json.asStr? ·.2)
  | none => []

/-- The type of further properties. -/
def additionalNames (d : Directive) : List String :=
  match d.get? "additionalProperties" with
  | some (.str text) => [text]
  | _ => []

/-- The types that a schema directive names. -/
def typeNames (d : Directive) : List String :=
  d.discriminatorNames ++ d.additionalNames ++ (d.text? "not").toList
    ++ (d.texts "allOf" ++ d.texts "anyOf" ++ d.texts "oneOf")

/-- The types that an array directive names for the items. -/
def itemNames (items : Directive) : List String :=
  match items.text? "implementation" with
  | some text => [text]
  | none => items.typeNames

/-- The types that an array directive names. -/
def arrayTypeNames (d : Directive) : List String :=
  d.typeNames ++ ((d.section? "items").map itemNames).getD []

end Directive

/-- The types that the schema directives of an element name. -/
def Directives.typeNames (ds : Directives) : List String :=
  ((ds.get? .schema).map Directive.typeNames).getD []
    ++ ((ds.get? .arraySchema).map Directive.arrayTypeNames).getD []

namespace Call

/-- The types that are named by some texts; a text that is no type leads nowhere. -/
def named (texts : List String) : List Call :=
  (texts.filterMap TypeRef.parse?).map fun t => .resolve none t {}

theorem mem_named {texts : List String} {call : Call} (h : call ∈ named texts) :
    ∃ text ∈ texts, ∃ t, TypeRef.parse? text = some t ∧ call = .resolve none t {} := by
  obtain ⟨t, ht, rfl⟩ := List.mem_map.mp h
  obtain ⟨text, htext, parsed⟩ := List.mem_filterMap.mp ht
  exact ⟨text, htext, t, parsed, rfl⟩

theorem named_append (texts others : List String) :
    named (texts ++ others) = named texts ++ named others := by
  simp [named]

theorem named_subset {texts others : List String} (h : texts ⊆ others) :
    named texts ⊆ named others :=
  List.map_subset _ (List.filterMap_subset _ h)

/-- What the schema of a map with these arguments leads to. -/
def ofMap (u : Universe) (args : List TypeRef) (scope : Scope) : List Call :=
  match args with
  | [] => []
  | key :: rest =>
    let value := rest.head?.getD .object
    match u.kindOf key with
    | .enum _ => [.define none key scope, .resolve none value scope]
    | _ => if Compiler.admitsAll u value then [] else [.resolve none value scope]

/-- A map leads to its key, if that is an enumeration, and to its value, if anything is said of
the values. -/
theorem mem_ofMap {u : Universe} {args : List TypeRef} {scope : Scope} {call : Call}
    (h : call ∈ ofMap u args scope) :
    ∃ key rest, args = key :: rest ∧
      (((∃ d, u.kindOf key = .enum d) ∧ call = .define none key scope) ∨
        ((u.isEnum key || !Compiler.admitsAll u (rest.head?.getD .object)) = true ∧
          call = .resolve none (rest.head?.getD .object) scope)) := by
  cases args with
  | nil => cases h
  | cons key rest =>
    refine ⟨key, rest, rfl, ?_⟩
    rw [ofMap] at h
    cases kind : u.kindOf key with
    | enum d =>
      simp only [kind, List.mem_cons, List.not_mem_nil, or_false] at h
      exact h.imp (fun same => ⟨⟨d, rfl⟩, same⟩) fun same => ⟨by simp [Universe.isEnum, kind], same⟩
    | _ =>
      simp only [kind] at h
      split at h
      · cases h
      · rename_i said
        exact .inr ⟨by simp [said], List.mem_singleton.mp h⟩

/-- What an occurrence leads to once it is opened. -/
def ofOpened (u : Universe) (element : Option Element) (t : TypeRef) (scope : Scope) :
    List Call :=
  match u.kindOf t with
  | .array item => if u.primitiveOf? item = some .byte then [] else [.resolve none item scope]
  | .map _ => ofMap u t.args scope
  | .iterable d =>
    if u.hasProperties d then [.define element t scope]
    else (u.bindings t).values.head?.toList.map fun item => .resolve none item scope
  | .enum _ => [.define element t scope]
  | .record _ => [.define element t scope]
  | .interface _ => [.define element t scope]
  | _ => []

/-- A type that is opened leads to the items of an array or a collection, to the parts of a map,
or to its own definition. -/
theorem mem_ofOpened {u : Universe} {element : Option Element} {t : TypeRef} {scope : Scope}
    {call : Call} (h : call ∈ ofOpened u element t scope) :
    (∃ item, u.kindOf t = .array item ∧ call = .resolve none item scope) ∨
      (∃ d, u.kindOf t = .map d ∧ call ∈ ofMap u t.args scope) ∨
      (∃ d, u.kindOf t = .iterable d ∧
        ∃ item ∈ (u.bindings t).values, call = .resolve none item scope) ∨
      ∃ d, (u.kindOf t = .record d ∨ u.kindOf t = .interface d ∨ u.kindOf t = .enum d ∨
        u.kindOf t = .iterable d ∧ u.hasProperties d = true) ∧ call = .define element t scope := by
  unfold ofOpened at h
  cases kind : u.kindOf t with
  | array item =>
    simp only [kind] at h
    split at h
    · cases h
    · exact .inl ⟨item, rfl, List.mem_singleton.mp h⟩
  | map d =>
    rw [kind] at h
    exact .inr (.inl ⟨d, rfl, h⟩)
  | iterable d =>
    simp only [kind] at h
    split at h
    · rename_i properties
      exact .inr (.inr (.inr ⟨d, by simp [properties], List.mem_singleton.mp h⟩))
    · obtain ⟨item, hitem, rfl⟩ := List.mem_map.mp h
      have value := List.mem_of_head? (Option.mem_toList.mp hitem)
      exact .inr (.inr (.inl ⟨d, rfl, item, value, rfl⟩))
  | enum d | record d | interface d =>
    rw [kind] at h
    exact .inr (.inr (.inr ⟨d, by simp, List.mem_singleton.mp h⟩))
  | primitive | wrapper | placeholder | wildcard | unknown =>
    rw [kind] at h
    cases h

/-- What an occurrence leads to. -/
def ofOccurrence (env : Environment) (element : Option Element) (t : TypeRef) (scope : Scope) :
    List Call :=
  ofOpened env.types element (openOccurrence env element t).1.type scope

/-- What a member that becomes a property leads to. -/
def ofMember (env : Environment) (d : Decl) (bindings : Bindings) (scope : Scope) (m : Member) :
    List Call :=
  if m.isVisible env d scope.view then
    .resolve (some (.ofMember d m)) (m.type.substitute bindings) scope
      :: named m.directives.typeNames
  else []

/-- What the ancestors and members of a declaration lead to. -/
def ofRecord (env : Environment) (d : Decl) (bindings : Bindings) (scope : Scope) : List Call :=
  (if (env.types.composedParents d).isEmpty then []
    else (env.types.lineage d bindings).map fun t => .define none t scope)
    ++ d.members.flatMap (ofMember env d bindings scope)

/-- What the definition of a declared type leads to. -/
def ofDefinition (env : Environment) (d : Decl) (bindings : Bindings) (scope : Scope) :
    List Call :=
  (if d.kind = .enum then [] else ofRecord env d bindings scope)
    ++ named (((d.directives.get? .schema).map Directive.typeNames).getD [])

/-- A definition leads to the ancestors of its declaration, to the members that become
properties, and to the types that directives name. -/
theorem mem_ofDefinition {env : Environment} {d : Decl} {bindings : Bindings} {scope : Scope}
    {call : Call} (h : call ∈ ofDefinition env d bindings scope) :
    (d.kind ≠ .enum ∧ ¬(env.types.composedParents d).isEmpty ∧
        ∃ t ∈ env.types.lineage d bindings, call = .define none t scope) ∨
      (d.kind ≠ .enum ∧ ∃ m ∈ d.members, m.isVisible env d scope.view = true ∧
        call = .resolve (some (.ofMember d m)) (m.type.substitute bindings) scope) ∨
      (∃ m ∈ d.members, call ∈ named m.directives.typeNames) ∨
      call ∈ named (((d.directives.get? .schema).map Directive.typeNames).getD []) := by
  rw [ofDefinition, List.mem_append] at h
  rcases h with composed | own
  · split at composed
    · cases composed
    · rename_i record
      rw [ofRecord, List.mem_append] at composed
      rcases composed with ancestor | member
      · split at ancestor
        · cases ancestor
        · rename_i parents
          obtain ⟨t, ht, same⟩ := List.mem_map.mp ancestor
          exact .inl ⟨record, parents, t, ht, same.symm⟩
      · obtain ⟨m, hm, h⟩ := List.mem_flatMap.mp member
        unfold ofMember at h
        split at h
        · rename_i visible
          rcases List.mem_cons.mp h with type | named
          · exact .inr (.inl ⟨record, m, hm, visible, type⟩)
          · exact .inr (.inr (.inl ⟨m, hm, named⟩))
        · cases h
  · exact .inr (.inr (.inr own))

/-- What a request leads to. -/
def ofRequest (r : Request) : List Call :=
  .resolve r.element r.type r.scope
    :: (r.element.map fun e => named e.directives.typeNames).getD []

/-- A request leads to its type, and to the types that the directives of its element name. -/
theorem mem_ofRequest {r : Request} {call : Call} (h : call ∈ ofRequest r) :
    call = .resolve r.element r.type r.scope ∨
      ∃ e, r.element = some e ∧ call ∈ named e.directives.typeNames := by
  refine (List.mem_cons.mp h).imp_right fun stated => ?_
  cases element : r.element with
  | none =>
    rw [element] at stated
    cases stated
  | some e =>
    rw [element] at stated
    exact ⟨e, rfl, stated⟩

end Call

end Schemata
