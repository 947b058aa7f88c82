/-
Plans.

Before anything is registered, a definition is planned: each of its paths is resolved
and compiled together with everything nested under it.  An alias is planned like the
route itself, with the nested routes once more under the alias's path.  If any part
fails, there is no plan.
-/
import Waymark.Definition
import Waymark.Text.Path

namespace Waymark

/-- A definition under one of its paths, compiled, with what is nested under it and, for a
primary path, its aliases. -/
inductive Plan
  | node (definition : Definition) (matcher : Matcher) (children aliases : List Plan)

namespace Plan

/-- The matcher of the path. -/
def matcher : Plan → Matcher
  | node _ matcher _ _ => matcher

/-- The pattern of the path. -/
def path (p : Plan) : String := p.matcher.pattern

mutual

/-- The names that will be looked up: those of the routes outside of aliases. -/
def names : Plan → List String
  | node definition _ children _ => definition.name.toList ++ namesOfAll children

/-- The names of several plans. -/
def namesOfAll : List Plan → List String
  | [] => []
  | plan :: rest => plan.names ++ namesOfAll rest

end

/-- What a nested route has to know of its parent. -/
structure Parent where
  path : String
  keys : List ParamKey

/-- What nested routes have to know of a matcher. -/
def parentOf (m : Matcher) : Parent := ⟨m.pattern, m.keys⟩

/-- An absolute path under a parent must have the parent's params. -/
def checkParent (raw : String) (parent : Option Parent) (m : Matcher) :
    Except DefinitionError Unit :=
  match parent with
  | none => .ok ()
  | some parent =>
    if raw.toList.head? = some '/' then
      match parent.keys.find? (fun key => !m.declares key.name) with
      | some key => .error (.invalidRoute m.pattern (.missingParentParam key.name parent.path))
      | none => .ok ()
    else .ok ()

/-- Whether two lists of keys have the same members. -/
def sameKeys (as bs : List ParamKey) : Bool := as.all bs.contains && bs.all as.contains

/-- An alias must have the params of the primary path. -/
def checkAlias (primary : Plan) (alternative : Plan) : Except DefinitionError Unit :=
  if sameKeys primary.matcher.keys alternative.matcher.keys then .ok ()
  else .error (.invalidRoute alternative.path (.aliasParams primary.path))

/-- Plans one path of a definition, given how to plan what is nested under it. -/
def variant (options : RouterOptions) (d : Definition) (parent : Option Parent)
    (nested : Parent → Except DefinitionError (List Plan)) (raw : String) :
    Except DefinitionError Plan :=
  match Matcher.ofPattern (Path.resolve raw (parent.map (·.path))) (options.patternOptions d) with
  | .error error => .error error
  | .ok m =>
    match checkParent raw parent m with
    | .error error => .error error
    | .ok _ => (nested (parentOf m)).map fun children => node d m children []

/-- Plans the aliases of a definition. -/
def variants (plan : String → Except DefinitionError Plan) (primary : Plan) :
    List String → Except DefinitionError (List Plan)
  | [] => .ok []
  | raw :: rest =>
    match plan raw with
    | .error error => .error error
    | .ok planned =>
      match checkAlias primary planned with
      | .error error => .error error
      | .ok _ => (variants plan primary rest).map (planned :: ·)

/-- The plan with aliases. -/
def withAliases : Plan → List Plan → Plan
  | node d m children _, aliases => node d m children aliases

mutual

/-- Plans a definition with its aliases. -/
def route (options : RouterOptions) (d : Definition) (parent : Option Parent) :
    Except DefinitionError Plan :=
  match d with
  | { children, .. } =>
    let plan := variant options d parent (fun inner => routes options children inner)
    match plan d.path with
    | .error error => .error error
    | .ok primary => (variants plan primary d.aliases).map primary.withAliases

/-- Plans the routes nested under a parent. -/
def routes (options : RouterOptions) (ds : List Definition) (parent : Parent) :
    Except DefinitionError (List Plan) :=
  match ds with
  | [] => .ok []
  | d :: rest =>
    match route options d (some parent) with
    | .error error => .error error
    | .ok planned => (routes options rest parent).map (planned :: ·)

end

/-- Plans a definition whose names are all different. -/
def ofDefinition (options : RouterOptions) (d : Definition) (parent : Option Parent) :
    Except DefinitionError Plan :=
  match route options d parent with
  | .error error => .error error
  | .ok plan =>
    match Pattern.repeatedName? [] plan.names with
    | some name => .error (.duplicateName name)
    | none => .ok plan

end Plan

end Waymark
