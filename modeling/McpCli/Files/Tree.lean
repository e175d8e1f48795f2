import Mathlib.Data.List.Infix

/-! Trees of files with links in them, and how a written path is followed through a tree. -/

namespace Files

/-- One step of a path as it is written. -/
inductive Step (Name : Type) where
  | stay
  | up
  | down (name : Name)
  deriving DecidableEq, Repr

/-- What can stand at a place of a tree. -/
inductive Node (Name Data : Type) where
  | file (data : Data)
  | dir
  /-- A link is followed from the top of the tree, or from the directory in which it stands. -/
  | link (absolute : Bool) (target : List (Step Name))
  deriving DecidableEq, Repr

/-- Why a path leads nowhere. -/
inductive Fault where
  | missing
  | notDirectory
  | tooManyLinks
  /-- The lookup of a name is refused for some other reason. -/
  | refused (reason : String)
  deriving DecidableEq, Repr

/-- What a lookup at each place answers, in which things only stand in directories. -/
structure Tree (Name Data : Type) where
  look : List Name → Except Fault (Node Name Data)
  top : look [] = .ok .dir
  parent : ∀ place name node, look (place ++ [name]) = .ok node → look place = .ok .dir

/-- Where a single step leads. -/
inductive Move (Name : Type) where
  | moved (place : List Name)
  /-- Behind a link, the way goes on with the steps of its target. -/
  | linked (start : List Name) (target : List (Step Name))
  deriving DecidableEq, Repr

/-- How far the steps lead that follow no link. -/
inductive Stop (Name : Type) where
  | arrived (place : List Name)
  | linked (start : List Name) (steps : List (Step Name))
  deriving DecidableEq, Repr

/-- A path of which a part has been followed, to a place, and some links may still be. -/
structure Walk (Name : Type) where
  links : Nat
  place : List Name
  rest : List (Step Name)
  deriving DecidableEq, Repr

namespace Tree

variable {Name Data : Type} (tree : Tree Name Data)

/-- Take one step from a place. -/
def next (place : List Name) (step : Step Name) : Except Fault (Move Name) :=
  match tree.look place with
  | .error fault => .error fault
  | .ok .dir =>
    match step with
    | .stay => .ok (.moved place)
    -- The top is its own parent.
    | .up => .ok (.moved place.dropLast)
    | .down name =>
      match tree.look (place ++ [name]) with
      | .error fault => .error fault
      | .ok (.link absolute target) => .ok (.linked (if absolute then [] else place) target)
      | .ok .dir | .ok (.file _) => .ok (.moved (place ++ [name]))
  | .ok _ => .error .notDirectory

/-- The next step of a walk, or the place where it has arrived. -/
def resume (walk : Walk Name) : Except Fault (Walk Name ⊕ List Name) :=
  match walk.rest with
  | [] => .ok (.inr walk.place)
  | step :: rest =>
    match tree.next walk.place step with
    | .error fault => .error fault
    | .ok (.moved place) => .ok (.inl { walk with place, rest })
    | .ok (.linked start target) =>
      match walk.links with
      | 0 => .error .tooManyLinks
      | links + 1 => .ok (.inl { links, place := start, rest := target ++ rest })

/-- Take steps from a place, up to the first link. -/
def advance : List Name → List (Step Name) → Except Fault (Stop Name)
  | place, [] => .ok (.arrived place)
  | place, step :: rest =>
    match tree.next place step with
    | .error fault => .error fault
    | .ok (.moved place) => advance place rest
    | .ok (.linked start target) => .ok (.linked start (target ++ rest))

/-- The place to which a path leads, if it takes no more links than there may be. -/
def walk : Nat → List Name → List (Step Name) → Except Fault (List Name)
  | links, place, steps =>
    match tree.advance place steps with
    | .error fault => .error fault
    | .ok (.arrived place) => .ok place
    | .ok (.linked start steps) =>
      match links with
      | 0 => .error .tooManyLinks
      | links + 1 => walk links start steps

/-- A path leads to a place, over so many links. -/
inductive Leads : Nat → List Name → List (Step Name) → List Name → Prop where
  | here (place : List Name) : Leads 0 place [] place
  | step {links : Nat} {place middle last : List Name} {step : Step Name}
      {rest : List (Step Name)} (taken : tree.next place step = .ok (.moved middle))
      (onward : Leads links middle rest last) : Leads links place (step :: rest) last
  | link {links : Nat} {place start last : List Name} {step : Step Name}
      {target rest : List (Step Name)} (taken : tree.next place step = .ok (.linked start target))
      (onward : Leads links start (target ++ rest) last) :
      Leads (links + 1) place (step :: rest) last

/-- No name on the way down to a place is that of a link. -/
def LinkFree (place : List Name) : Prop :=
  ∀ front, front <+: place → ∀ absolute target, tree.look front ≠ .ok (.link absolute target)

/-- Something other than a link stands at a place, and only directories above it. -/
structure Canonical (place : List Name) : Prop where
  linkFree : tree.LinkFree place
  found : ∃ node, tree.look place = .ok node

/-- What the entries of a list say of a place, the top being a directory. -/
def lookIn [DecidableEq Name] (entries : List (List Name × Node Name Data)) (place : List Name) :
    Except Fault (Node Name Data) :=
  if place = [] then .ok .dir
  else
    match entries.find? fun entry => entry.1 = place with
    | some entry => .ok entry.2
    | none => .error .missing

/-- The tree of some entries, all of which stand in directories. -/
def ofEntries [DecidableEq Name] (entries : List (List Name × Node Name Data))
    (closed : ∀ entry ∈ entries, lookIn entries entry.1.dropLast = .ok .dir) :
    Tree Name Data where
  look := lookIn entries
  top := rfl
  parent := by
    intro place name node found
    rw [lookIn, if_neg (List.append_ne_nil_of_right_ne_nil _ (by simp))] at found
    split at found
    · rename_i entry there
      have named := List.find?_some there
      have inside := closed entry (List.mem_of_find?_eq_some there)
      rwa [of_decide_eq_true named, List.dropLast_concat] at inside
    · cases found

end Tree

section

variable {Name Data : Type} {tree : Tree Name Data} {place middle start last : List Name}
  {step : Step Name} {steps rest target : List (Step Name)} {links : Nat}

namespace Tree

/-- What stands below a place stands in a directory. -/
theorem look_of_strict {front below : List Name} {name : Name} {node : Node Name Data}
    (found : tree.look (front ++ name :: below) = .ok node) : tree.look front = .ok .dir := by
  -- Go up one directory after another.
  induction below using List.reverseRecOn generalizing node with
  | nil => exact tree.parent front name node found
  | append_singleton below last ih =>
    rw [← List.cons_append, ← List.append_assoc] at found
    exact ih (tree.parent _ last node found)

/-- The top of a tree is no link. -/
theorem canonical_top : tree.Canonical [] := by
  refine ⟨?_, .dir, tree.top⟩
  intro front above absolute target linked
  rw [List.prefix_nil.mp above, tree.top] at linked
  cases linked

/-- Whatever stands at a place, there is no link above it. -/
theorem Canonical.of_look {node : Node Name Data} (found : tree.look place = .ok node)
    (plain : ∀ absolute target, node ≠ .link absolute target) : tree.Canonical place := by
  refine ⟨?_, node, found⟩
  rintro front ⟨below, rfl⟩ absolute target linked
  cases below with
  | nil =>
    rw [List.append_nil, linked] at found
    cases found
    exact plain absolute target rfl
  | cons name below =>
    -- A link is no directory, so that nothing can stand in it.
    rw [look_of_strict found] at linked
    cases linked

/-- The names on the way down to a place without links are those of places without links. -/
theorem Canonical.above (canonical : tree.Canonical place) {front : List Name}
    (above : front <+: place) : tree.Canonical front := by
  obtain ⟨node, found⟩ := canonical.found
  refine ⟨fun other higher => canonical.linkFree other (higher.trans above), ?_⟩
  obtain ⟨below, rfl⟩ := above
  -- Whatever has something below it is a directory.
  cases below with
  | nil => exact ⟨node, by simpa using found⟩
  | cons name below => exact ⟨.dir, look_of_strict found⟩

/-- Steps are only taken in directories. -/
theorem look_of_next {move : Move Name} (taken : tree.next place step = .ok move) :
    tree.look place = .ok .dir := by
  unfold next at taken
  split at taken
  · cases taken
  · assumption
  · cases taken

/-- A step that follows no link leads to a place without links. -/
theorem canonical_of_moved (taken : tree.next place step = .ok (.moved middle)) :
    tree.Canonical middle := by
  have here := look_of_next taken
  have canonical : tree.Canonical place := .of_look here (by simp)
  unfold next at taken
  rw [here] at taken
  -- The place is where it was, above it, or has just been looked up.
  cases step with
  | stay =>
    cases taken
    exact canonical
  | up =>
    cases taken
    exact canonical.above (List.dropLast_prefix place)
  | down name =>
    dsimp only at taken
    split at taken
    · cases taken
    · cases taken
    all_goals
      rename_i found
      cases taken
      exact .of_look found (by simp)

/-- A link is followed from a place without links. -/
theorem canonical_of_linked (taken : tree.next place step = .ok (.linked start target)) :
    tree.Canonical start := by
  have here := look_of_next taken
  have canonical : tree.Canonical place := .of_look here (by simp)
  unfold next at taken
  rw [here] at taken
  cases step with
  | stay => cases taken
  | up => cases taken
  | down name =>
    dsimp only at taken
    split at taken
    · cases taken
    · rename_i absolute _ _
      cases taken
      -- The target of a link is followed from the top or from here.
      cases absolute with
      | true => exact canonical_top
      | false => exact canonical
    all_goals cases taken

/-- A path leads to a place without links. -/
theorem Leads.canonical (leads : tree.Leads links place steps last)
    (canonical : tree.Canonical place) : tree.Canonical last := by
  induction leads with
  | here => exact canonical
  | step taken _ ih => exact ih (canonical_of_moved taken)
  | link taken _ ih => exact ih (canonical_of_linked taken)

/-- Steps up to a link, and the way on from there, are a way over one link more. -/
theorem leads_of_advance_linked (linked : tree.advance place steps = .ok (.linked start rest))
    (onward : tree.Leads links start rest last) : tree.Leads (links + 1) place steps last := by
  -- The link is the first one, so that it is reached by steps without one.
  induction steps generalizing place with
  | nil => cases linked
  | cons step steps ih =>
    unfold advance at linked
    split at linked
    · cases linked
    · rename_i taken
      exact .step taken (ih linked)
    · rename_i taken
      cases linked
      exact .link taken onward

/-- Steps without a link are a way over no link. -/
theorem leads_of_advance_arrived (arrived : tree.advance place steps = .ok (.arrived last)) :
    tree.Leads 0 place steps last := by
  -- A step that goes astray or leads to a link is not one of these.
  induction steps generalizing place with
  | nil =>
    cases arrived
    exact .here _
  | cons step steps ih =>
    unfold advance at arrived
    split at arrived
    · cases arrived
    · rename_i taken
      exact .step taken (ih arrived)
    · cases arrived

/-- A walk arrives where the path leads, and over no more links than it may take. -/
theorem leads_of_walk (walked : tree.walk links place steps = .ok last) :
    ∃ taken ≤ links, tree.Leads taken place steps last := by
  -- Each link that is taken is counted once, in the walk and on the way.
  induction links generalizing place steps with
  | zero =>
    unfold walk at walked
    split at walked
    · cases walked
    · rename_i arrived
      cases walked
      exact ⟨0, Nat.le_refl 0, leads_of_advance_arrived arrived⟩
    · cases walked
  | succ links ih =>
    unfold walk at walked
    split at walked
    · cases walked
    · rename_i arrived
      cases walked
      exact ⟨0, Nat.zero_le _, leads_of_advance_arrived arrived⟩
    · rename_i linked
      obtain ⟨taken, few, leads⟩ := ih walked
      exact ⟨taken + 1, Nat.succ_le_succ few, leads_of_advance_linked linked leads⟩

/-- A step that is no link is not the end of a walk. -/
theorem walk_cons_of_moved (taken : tree.next place step = .ok (.moved middle)) :
    tree.walk links place (step :: rest) = tree.walk links middle rest := by
  unfold walk
  rw [advance, taken]

/-- A walk goes on behind a link, with one link less to take. -/
theorem walk_cons_of_linked (taken : tree.next place step = .ok (.linked start target)) :
    tree.walk (links + 1) place (step :: rest) = tree.walk links start (target ++ rest) := by
  rw [walk, advance, taken]

/-- A walk over one link more than it may take is given up. -/
theorem walk_cons_of_loop (taken : tree.next place step = .ok (.linked start target)) :
    tree.walk 0 place (step :: rest) = .error .tooManyLinks := by
  rw [walk, advance, taken]

/-- A walk ends at a step that cannot be taken. -/
theorem walk_cons_of_error {fault : Fault} (refused : tree.next place step = .error fault) :
    tree.walk links place (step :: rest) = .error fault := by
  unfold walk
  rw [advance, refused]

/-- Where nothing changes, a walk that is taken step by step ends as the whole walk does. -/
theorem walk_eq_resume (walk : Walk Name) :
    tree.walk walk.links walk.place walk.rest =
      match tree.resume walk with
      | .error fault => .error fault
      | .ok (.inl further) => tree.walk further.links further.place further.rest
      | .ok (.inr place) => .ok place := by
  -- One round of the walk is one step of the other, for each thing that a name can be.
  obtain ⟨links, place, rest⟩ := walk
  cases rest with
  | nil =>
    unfold Tree.walk
    rfl
  | cons step rest =>
    unfold resume
    cases taken : tree.next place step with
    | error fault => simp only [taken, walk_cons_of_error taken]
    | ok move =>
      cases move with
      | moved middle => simp only [taken, walk_cons_of_moved taken]
      | linked start target =>
        cases links with
        | zero => simp only [taken, walk_cons_of_loop taken]
        | succ links => simp only [taken, walk_cons_of_linked taken]

/-- A walk that may take the links of a path arrives where the path leads. -/
theorem walk_of_leads {few : Nat} (leads : tree.Leads few place steps last)
    (enough : few ≤ links) : tree.walk links place steps = .ok last := by
  induction leads generalizing links with
  | here =>
    unfold walk
    rfl
  | step taken _ ih =>
    rw [walk_cons_of_moved taken]
    exact ih enough
  | link taken _ ih =>
    -- A way over a link is not allowed unless there is one left to take.
    obtain ⟨fewer, rfl⟩ : ∃ fewer, links = fewer + 1 := ⟨links - 1, by omega⟩
    rw [walk_cons_of_linked taken]
    exact ih (by omega)

/-- A walk arrives exactly where the path leads over no more links than it may take. -/
theorem walk_eq_ok_iff :
    tree.walk links place steps = .ok last ↔
      ∃ taken ≤ links, tree.Leads taken place steps last := by
  constructor
  · exact leads_of_walk
  · rintro ⟨taken, few, leads⟩
    exact walk_of_leads leads few

/-- The step into a name that stands for no link leads to it. -/
theorem next_down {name : Name} (canonical : tree.Canonical (place ++ [name])) :
    tree.next place (.down name) = .ok (.moved (place ++ [name])) := by
  obtain ⟨node, found⟩ := canonical.found
  have plain := canonical.linkFree _ (List.prefix_refl _)
  -- A name is only followed further if a link stands under it.
  unfold next
  rw [tree.parent place name node found]
  dsimp only
  rw [found] at plain ⊢
  cases node with
  | file data => rfl
  | dir => rfl
  | link absolute target => exact absurd rfl (plain absolute target)

/-- A path goes on from where its first step leads, if it is no link. -/
theorem leads_cons_iff (taken : tree.next place step = .ok (.moved middle)) :
    tree.Leads links place (step :: rest) last ↔ tree.Leads links middle rest last := by
  -- There is one thing that a name can be.
  constructor
  · intro leads
    cases leads with
    | step taken' onward =>
      rw [taken] at taken'
      cases taken'
      exact onward
    | link taken' _ =>
      rw [taken] at taken'
      cases taken'
  · exact .step taken

/-- The names below a place without links lead down to where they are written. -/
theorem leads_downwards_iff {below : List Name} (canonical : tree.Canonical (place ++ below)) :
    tree.Leads links place (below.map .down ++ rest) last ↔
      tree.Leads links (place ++ below) rest last := by
  induction below generalizing place with
  | nil => simp
  | cons name below ih =>
    rw [List.append_cons] at canonical ⊢
    -- Each name stands for a step that follows no link.
    have first := canonical.above (List.prefix_append (place ++ [name]) below)
    rw [List.map_cons, List.cons_append, leads_cons_iff (next_down first), ih canonical]

/-- On the way to a place without links, no step down is one over a link. -/
theorem moved_of_linkFree {name : Name} {move : Move Name}
    (linkFree : tree.LinkFree (place ++ [name])) (taken : tree.next place (.down name) = .ok move) :
    move = .moved (place ++ [name]) := by
  have plain := linkFree _ (List.prefix_refl _)
  unfold next at taken
  split at taken
  · cases taken
  · dsimp only at taken
    split at taken
    · cases taken
    · rename_i linked
      -- The place would be that of a link.
      exact absurd linked (plain _ _)
    all_goals
      cases taken
      rfl
  · cases taken

/-- A step that stays leads nowhere else. -/
theorem moved_of_stay {move : Move Name} (taken : tree.next place .stay = .ok move) :
    move = .moved place := by
  have here := look_of_next taken
  rw [next, here] at taken
  cases taken
  rfl

/-- A walk that goes on is at a place without links. -/
theorem canonical_of_resume {walk further : Walk Name}
    (resumed : tree.resume walk = .ok (.inl further)) : tree.Canonical further.place := by
  -- It goes on after a step to a name, or from where a link has been read.
  unfold resume at resumed
  split at resumed
  · cases resumed
  · split at resumed
    · cases resumed
    · rename_i taken
      cases resumed
      exact canonical_of_moved taken
    · rename_i taken
      split at resumed
      · cases resumed
      · cases resumed
        exact canonical_of_linked taken

/-- A walk arrives at the place where it is. -/
theorem arrived_of_resume {walk : Walk Name} (resumed : tree.resume walk = .ok (.inr last)) :
    walk.place = last ∧ walk.rest = [] := by
  -- Every other way to go on is a step that is still to be followed.
  unfold resume at resumed
  split at resumed
  · rename_i arrived
    cases resumed
    exact ⟨rfl, arrived⟩
  · split at resumed
    · cases resumed
    · cases resumed
    · split at resumed
      · cases resumed
      · cases resumed

end Tree

end

end Files
