import WaveX.RouterPaths
import WaveX.FlatMap

/-! # The router

    `Router<Proto>` of `Router.hpp`: the tree that `route` grows, the chains that `freeze`
    compiles into it and the search of `resolve`.  Methods, handlers and middlewares are of
    any type; `RE2::FullMatch` is a parameter.

    A node's `prefix`, `param_name`, `pattern` and `constraint` are the segment it was
    created for; `static_index` is a search of its static children by label. -/

namespace RouterTree

open QuicVarInt RouterPaths

variable {M H W : Type*} [DecidableEq M]

/-! ## Nodes -/

/-- `operator[]` of an `unordered_map` and an assignment to it. -/
def put {β : Type*} (entries : List (M × β)) (m : M) (value : β) : List (M × β) :=
  entries.filter (fun e => decide (e.1 ≠ m)) ++ [(m, value)]

/-- A node of the tree. -/
structure Node (M H W : Type*) where
  edge : Segment
  handlers : List (M × H)
  routeMiddlewares : List (M × List W)
  compiledMiddlewares : List (M × List W)
  children : List (Node M H W)
  paramChildren : List (Node M H W)
  wildcardChild : Option (Node M H W)

/-- A new node for a segment. -/
def Node.fresh (edge : Segment) : Node M H W := ⟨edge, [], [], [], [], [], none⟩

/-- The child with that segment, changed where it is, or a new one at the end. -/
def updateChild (edge : Segment) (f : Node M H W → Node M H W) :
    List (Node M H W) → List (Node M H W)
  | [] => [f (Node.fresh edge)]
  | child :: rest =>
      if child.edge = edge then f child :: rest else child :: updateChild edge f rest

/-- `insert_segment`, with what is done to the node it returns.  A node has one wildcard
    child, which keeps the name it was created with. -/
def insertSegment (segment : Segment) (f : Node M H W → Node M H W) (parent : Node M H W) :
    Node M H W :=
  match segment with
  | .param _ | .regexParam _ _ =>
      { parent with paramChildren := updateChild segment f parent.paramChildren }
  | .wildcard _ =>
      { parent with
        wildcardChild := some (f (parent.wildcardChild.getD (Node.fresh segment))) }
  | .static _ => { parent with children := updateChild segment f parent.children }

/-- What `route` stores at the leaf: without middlewares it leaves those that are there. -/
def Node.register (m : M) (mws : List W) (h : H) (node : Node M H W) : Node M H W :=
  { node with
    handlers := put node.handlers m h
    routeMiddlewares :=
      if mws.isEmpty then node.routeMiddlewares else put node.routeMiddlewares m mws }

/-- The walk of `route` along the segments. -/
def insertPath (f : Node M H W → Node M H W) : List Segment → Node M H W → Node M H W
  | [], node => f node
  | segment :: rest, node => insertSegment segment (insertPath f rest) node

/-! ## Compiled chains -/

/-- The text of a segment in the path that `freeze_node` puts together. -/
def edgeText : Segment → Bytes
  | .static label => slash :: label
  | .param name | .regexParam name _ => slash :: colon :: name
  | .wildcard name => slash :: asterisk :: name

/-- The middlewares of the router, with their prefixes, that apply at a path. -/
def applicable (middlewares : List (Bytes × W)) (path : Bytes) : List W :=
  (middlewares.filter fun mw => mw.1.isEmpty || mw.1.isPrefixOf path).map Prod.snd

/-- The chain of a method at a node. -/
def chainOf (middlewares : List (Bytes × W)) (path : Bytes)
    (routeMiddlewares : List (M × List W)) (m : M) : List W :=
  applicable middlewares path ++ (FlatMap.lookup routeMiddlewares m).getD []

mutual

/-- `freeze_node`. -/
def freezeNode (middlewares : List (Bytes × W)) : Node M H W → Bytes → Node M H W
  | ⟨edge, handlers, routeMws, compiled, children, params, wildcard⟩, path =>
      ⟨edge, handlers, routeMws,
        if handlers.isEmpty then compiled
        else handlers.map fun e => (e.1, chainOf middlewares path routeMws e.1),
        freezeChildren middlewares children path, freezeChildren middlewares params path,
        freezeWildcard middlewares wildcard path⟩

/-- The children of a node, each at its own path. -/
def freezeChildren (middlewares : List (Bytes × W)) :
    List (Node M H W) → Bytes → List (Node M H W)
  | [], _ => []
  | child :: rest, path =>
      freezeNode middlewares child (path ++ edgeText child.edge) ::
        freezeChildren middlewares rest path

/-- The wildcard child of a node. -/
def freezeWildcard (middlewares : List (Bytes × W)) :
    Option (Node M H W) → Bytes → Option (Node M H W)
  | none, _ => none
  | some child, path => some (freezeNode middlewares child (path ++ edgeText child.edge))

end

/-! ## Resolution -/

/-- The parameters of a match. -/
abbrev Params := FlatMap.Map Bytes View


/-- The name under which a segment binds; a static one binds nothing. -/
def bindingName : Segment → Bytes
  | .static _ => []
  | .param name | .regexParam name _ | .wildcard name => name

/-- Whether a dynamic child takes a segment: without a constraint always. -/
def admits (fullMatch : Bytes → Bytes → Bool) (edge : Segment) (segment : Bytes) : Bool :=
  match edge with
  | .regexParam _ pattern => fullMatch pattern segment
  | _ => true

/-- The loop over the dynamic children: a child that fails loses its binding again. -/
def tryParams (fullMatch : Bytes → Bytes → Bool)
    (search : Node M H W → Params → Option (Node M H W) × Params) (segment : View) :
    List (Node M H W) → Params → Option (Node M H W) × Params
  | [], params => (none, params)
  | child :: rest, params =>
      if admits fullMatch child.edge segment.text then
        let name := bindingName child.edge
        match search child (FlatMap.insertOrAssign params name segment) with
        | (some found, params') => (some found, params')
        | (none, params') => tryParams fullMatch search segment rest (FlatMap.without params' name)
      else tryParams fullMatch search segment rest params

/-- The static child of a segment. -/
def Node.staticChild (node : Node M H W) (segment : Bytes) : Option (Node M H W) :=
  node.children.find? fun child => child.edge = .static segment

/-- The wildcard child binds what is left of the path, also when it has no handler. -/
def tryWildcard (normalized : Bytes) (segments : List View) (params : Params) :
    Option (Node M H W) → Option (Node M H W) × Params
  | none => (none, params)
  | some child =>
      (if child.handlers.isEmpty then none else some child,
        FlatMap.insertOrAssign params (bindingName child.edge)
          (computeWildcardSlice normalized segments))

/-- The first search that finds a node; the next one goes on with the parameters that the
    one before left. -/
def orElse (found : Option (Node M H W) × Params)
    (next : Params → Option (Node M H W) × Params) : Option (Node M H W) × Params :=
  match found with
  | (some node, params) => (some node, params)
  | (none, params) => next params

/-- `resolve_node`, over the segments from `depth` on. -/
def resolveNode (fullMatch : Bytes → Bytes → Bool) (normalized : Bytes) :
    List View → Node M H W → Params → Option (Node M H W) × Params
  | [], node, params => (if node.handlers.isEmpty then none else some node, params)
  | segment :: rest, node, params =>
      orElse
        (match node.staticChild segment.text with
          | some child => resolveNode fullMatch normalized rest child params
          | none => (none, params))
        fun params =>
          orElse
            (tryParams fullMatch (resolveNode fullMatch normalized rest) segment
              node.paramChildren params)
            fun params => tryWildcard normalized (segment :: rest) params node.wildcardChild

/-! ## The router and its calls -/

/-- The state of a router. -/
structure Router (M H W : Type*) where
  middlewares : List (Bytes × W)
  root : Node M H W
  frozen : Bool

/-- A new router, with a root and nothing else. -/
def Router.initial : Router M H W := ⟨[], Node.fresh (.static [slash]), false⟩

/-- `Router::route`. -/
def Router.route (router : Router M H W) (m : M) (pattern : Bytes) (mws : List W) (h : H) :
    Router M H W :=
  { router with
    root := insertPath (Node.register m mws h) (parsePattern pattern) router.root
    frozen := false }

/-- `Router::use` with a prefix; the global one is that of the empty prefix. -/
def Router.use (router : Router M H W) (scope : Bytes) (mw : W) : Router M H W :=
  { router with
    middlewares :=
      router.middlewares ++ [(if scope.isEmpty then [] else normalizePath scope, mw)]
    frozen := false }

/-- `Router::clear`: the flag stays as it is. -/
def Router.clear (router : Router M H W) : Router M H W :=
  { router with middlewares := [], root := Node.fresh (.static [slash]) }

/-- `Router::freeze`. -/
def Router.freeze (router : Router M H W) : Router M H W :=
  { router with root := freezeNode router.middlewares router.root [], frozen := true }

/-- A `RouteMatch`. -/
structure RouteMatch (H W : Type*) where
  handler : H
  middlewares : List W
  params : Params

/-- The match at the node that the search found. -/
def matchAt (m : M) : Option (Node M H W) × Params → Option (RouteMatch H W)
  | (none, _) => none
  | (some node, params) =>
      match FlatMap.lookup node.handlers m with
      | none => none
      | some handler =>
          some ⟨handler, (FlatMap.lookup node.compiledMiddlewares m).getD [], params⟩

/-- The inline segments of `resolve`. -/
def inlineSegments : Nat := 16

/-- `Router::resolve`, with the router it leaves. -/
def Router.resolve (fullMatch : Bytes → Bytes → Bool) (router : Router M H W) (m : M)
    (path : Bytes) : Router M H W × Option (RouteMatch H W) :=
  let router := if router.frozen then router else router.freeze
  let normalized := normalizePathView path
  (router, matchAt m (resolveNode fullMatch normalized (splitPathInto inlineSegments normalized)
    router.root FlatMap.empty))

/-- A call of the router. -/
inductive Call (M H W : Type*) where
  | route (m : M) (pattern : Bytes) (mws : List W) (h : H)
  | use (scope : Bytes) (mw : W)
  | clear
  | freeze
  | resolve (m : M) (path : Bytes)

/-- What a call makes of the router. -/
def Router.call (fullMatch : Bytes → Bytes → Bool) (router : Router M H W) :
    Call M H W → Router M H W
  | .route m pattern mws h => router.route m pattern mws h
  | .use scope mw => router.use scope mw
  | .clear => router.clear
  | .freeze => router.freeze
  | .resolve m path => (router.resolve fullMatch m path).1

/-- The router after these calls. -/
def run (fullMatch : Bytes → Bytes → Bool) (calls : List (Call M H W)) : Router M H W :=
  calls.foldl (Router.call fullMatch) Router.initial

end RouterTree
