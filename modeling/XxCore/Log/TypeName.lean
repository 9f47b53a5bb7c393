import XxCore.Lib.Nesting

/-! The names of types, as `type_name` makes them: paths with generic arguments, references and what
else stands around a type, tuples, functions, and paths that begin with a type in angle brackets. -/
namespace XxCore.Log

open Nesting

/-- `<` and `>` as brackets. The `>` of an arrow is one of them. -/
def turn (ch : Char) : Turn :=
  if ch = '<' then .opens else if ch = '>' then .closes else .other

/-- Text without angle brackets. -/
structure Plain where
  chars : List Char
  plain : ∀ ch ∈ chars, turn ch = .other

/-- A name in a path. -/
structure Ident where
  chars : List Char
  plain : ∀ ch ∈ chars, turn ch = .other
  nonempty : chars ≠ []
  colonless : ':' ∉ chars

mutual

inductive Ty where
  | path (path : Path)
  /-- `&T`, `&mut T`, `*const T`, `[T]`, `[T; 4]` or `dyn T`. -/
  | around (before : Plain) (inner : Ty) (after : Plain)
  | tuple (items : Items)
  | fn (head : Plain) (params : Items)
  /-- `fn(A, B) -> C`, where the head is the text before the parameters. -/
  | fnTo (head : Plain) (params : Items) (result : Ty)

/-- A path whose segments have arguments, or none where the list is empty. -/
inductive Path where
  | first (name : Ident) (args : Items)
  /-- `<T>::name`. -/
  | inherent (self : Ty) (name : Ident) (args : Items)
  /-- `<T as Trait>::name`. -/
  | qualified (self : Ty) (trait : Path) (name : Ident) (args : Items)
  | segment (path : Path) (name : Ident) (args : Items)

inductive Items where
  | nil
  | cons (item : Ty) (items : Items)

end

def Items.isNil : Items → Bool
  | .nil => true
  | .cons _ _ => false

mutual

def Ty.print : Ty → List Char
  | .path path => path.print
  | .around before inner after => before.chars ++ inner.print ++ after.chars
  | .tuple items => '(' :: (items.print ++ [')'])
  | .fn head params => head.chars ++ '(' :: (params.print ++ [')'])
  | .fnTo head params result =>
    head.chars ++ '(' :: (params.print ++ ')' :: ' ' :: '-' :: '>' :: ' ' :: result.print)

def Path.print : Path → List Char
  | .first name args => name.chars ++ args.angles
  | .inherent self name args =>
    '<' :: (self.print ++ ['>']) ++ ':' :: ':' :: (name.chars ++ args.angles)
  | .qualified self trait name args =>
    '<' :: (self.print ++ ' ' :: 'a' :: 's' :: ' ' :: trait.print ++ ['>']) ++
      ':' :: ':' :: (name.chars ++ args.angles)
  | .segment path name args => path.print ++ ':' :: ':' :: (name.chars ++ args.angles)

/-- The items with `, ` between them. -/
def Items.print : Items → List Char
  | .nil => []
  | .cons item items => item.print ++ items.more

/-- The items behind another one. -/
def Items.more : Items → List Char
  | .nil => []
  | .cons item items => ',' :: ' ' :: (item.print ++ items.more)

/-- The arguments of a segment. -/
def Items.angles : Items → List Char
  | .nil => []
  | .cons item items => '<' :: (item.print ++ items.more ++ ['>'])

end

mutual

/-- The arrows in a name. -/
def Ty.arrows : Ty → Nat
  | .path path => path.arrows
  | .around _ inner _ => inner.arrows
  | .tuple items => items.arrows
  | .fn _ params => params.arrows
  | .fnTo _ params result => params.arrows + result.arrows + 1

def Path.arrows : Path → Nat
  | .first _ args => args.arrows
  | .inherent self _ args => self.arrows + args.arrows
  | .qualified self trait _ args => self.arrows + trait.arrows + args.arrows
  | .segment path _ args => path.arrows + args.arrows

def Items.arrows : Items → Nat
  | .nil => 0
  | .cons item items => item.arrows + items.arrows

end

mutual

/-- How deep the angle brackets of a name are nested. -/
def Ty.depth : Ty → Nat
  | .path path => path.depth
  | .around _ inner _ => inner.depth
  | .tuple items => items.depth
  | .fn _ params => params.depth
  | .fnTo _ params result => max params.depth result.depth

def Path.depth : Path → Nat
  | .first _ args => args.anglesDepth
  | .inherent self _ args => max (self.depth + 1) args.anglesDepth
  | .qualified self trait _ args => max (max self.depth trait.depth + 1) args.anglesDepth
  | .segment path _ args => max path.depth args.anglesDepth

def Items.depth : Items → Nat
  | .nil => 0
  | .cons item items => max item.depth items.depth

def Items.anglesDepth : Items → Nat
  | .nil => 0
  | .cons item items => max item.depth items.depth + 1

end

/-- The last segment of a path, without its arguments. -/
def Path.last : Path → Ident
  | .first name _ => name
  | .inherent _ name _ => name
  | .qualified _ _ name _ => name
  | .segment _ name _ => name

/-- The last segment of a path that has arguments. -/
def Path.lastGeneric : Path → Option Ident
  | .first name args => if args.isNil then none else some name
  | .inherent _ name args => if args.isNil then none else some name
  | .qualified _ _ name args => if args.isNil then none else some name
  | .segment path name args => if args.isNil then path.lastGeneric else some name

section Net

theorem net_plain {word : List Char} (plain : ∀ ch ∈ word, turn ch = .other) : net turn word = 0 :=
  (nested_of_other plain).net

theorem net_cons_other {ch : Char} (other : turn ch = .other) (word : List Char) :
    net turn (ch :: word) = net turn word := by
  simp only [net,other]

theorem net_angles (word : List Char) : net turn ('<' :: (word ++ ['>'])) = net turn word := by
  have opened : net turn ('<' :: (word ++ ['>'])) = net turn (word ++ ['>']) + 1 := rfl
  have closed : net turn ['>'] = -1 := rfl
  rw [opened,net_append,closed]
  omega

mutual

/-- Each arrow is a bracket that closes and was never opened. -/
theorem Ty.net_print : ∀ t : Ty, net turn t.print = -(t.arrows : Int)
  | .path path => path.net_print
  | .around before inner after => by
    rw [Ty.print,net_append,net_append,net_plain before.plain,net_plain after.plain,inner.net_print,
      Ty.arrows]
    omega
  | .tuple items => by
    rw [Ty.print,net_cons_other rfl,net_append,net_cons_other rfl,items.net_print,Ty.arrows]
    exact Int.add_zero _
  | .fn head params => by
    rw [Ty.print,net_append,net_plain head.plain,net_cons_other rfl,net_append,net_cons_other rfl,
      params.net_print,Ty.arrows,net]
    omega
  | .fnTo head params result => by
    have arrow : net turn (')' :: ' ' :: '-' :: '>' :: ' ' :: result.print) =
        net turn result.print - 1 := rfl
    rw [Ty.print,net_append,net_plain head.plain,net_cons_other rfl,net_append,arrow,params.net_print,
      result.net_print,Ty.arrows]
    omega

theorem Path.net_print : ∀ path : Path, net turn path.print = -(path.arrows : Int)
  | .first name args => by
    rw [Path.print,net_append,net_plain name.plain,args.net_angles,Path.arrows]
    omega
  | .inherent self name args => by
    rw [Path.print,net_append,net_angles,net_cons_other rfl,net_cons_other rfl,net_append,
      net_plain name.plain,args.net_angles,self.net_print,Path.arrows]
    omega
  | .qualified self trait name args => by
    have within : net turn (self.print ++ ' ' :: 'a' :: 's' :: ' ' :: trait.print) =
        net turn self.print + net turn trait.print := net_append _ _
    rw [Path.print,net_append,net_angles,within,net_cons_other rfl,net_cons_other rfl,net_append,
      net_plain name.plain,args.net_angles,self.net_print,trait.net_print,Path.arrows]
    omega
  | .segment path name args => by
    rw [Path.print,net_append,net_cons_other rfl,net_cons_other rfl,net_append,
      net_plain name.plain,args.net_angles,path.net_print,Path.arrows]
    omega

theorem Items.net_print : ∀ items : Items, net turn items.print = -(items.arrows : Int)
  | .nil => rfl
  | .cons item items => by
    rw [Items.print,net_append,item.net_print,items.net_more,Items.arrows]
    omega

theorem Items.net_more : ∀ items : Items, net turn items.more = -(items.arrows : Int)
  | .nil => rfl
  | .cons item items => by
    rw [Items.more,net_cons_other rfl,net_cons_other rfl,net_append,item.net_print,items.net_more,
      Items.arrows]
    omega

theorem Items.net_angles : ∀ items : Items, net turn items.angles = -(items.arrows : Int)
  | .nil => rfl
  | .cons item items => by
    rw [Items.angles,Log.net_angles,net_append,item.net_print,items.net_more,Items.arrows]
    omega

end

end Net

section Depth

mutual

/-- A name without arrows closes what it opens. -/
theorem Ty.nested_print : ∀ t : Ty, t.arrows = 0 → Nested turn t.depth t.print
  | .path path,arrowless => path.nested_print arrowless
  | .around before inner after,arrowless => by
    have nested := ((nested_of_other before.plain).append (inner.nested_print arrowless)).append
      (nested_of_other after.plain)
    rwa [Nat.zero_max,Nat.max_zero] at nested
  | .tuple items,arrowless => by
    have closed : Nested turn 0 [')'] := nested_of_other (by simp [turn])
    have nested := (items.nested_print arrowless).append closed
    rw [Nat.max_zero] at nested
    exact nested.cons_other rfl
  | .fn head params,arrowless => by
    have closed : Nested turn 0 [')'] := nested_of_other (by simp [turn])
    have nested := (params.nested_print arrowless).append closed
    have headed := (nested_of_other head.plain).append (nested.cons_other (a := '(') rfl)
    rwa [Nat.max_zero,Nat.zero_max] at headed
  | .fnTo head params result,arrowless => absurd arrowless (Nat.succ_ne_zero _)

theorem Path.nested_print : ∀ path : Path, path.arrows = 0 → Nested turn path.depth path.print
  | .first name args,arrowless => by
    have nested := (nested_of_other name.plain).append (args.nested_angles arrowless)
    rwa [Nat.zero_max] at nested
  | .inherent self name args,arrowless => by
    obtain ⟨selfless,argless⟩ := Nat.add_eq_zero_iff.mp arrowless
    have named := (nested_of_other name.plain).append (args.nested_angles argless)
    rw [Nat.zero_max] at named
    have opening := (self.nested_print selfless).wrap (a := '<') (b := '>') rfl rfl
    exact opening.append ((named.cons_other (a := ':') rfl).cons_other (a := ':') rfl)
  | .qualified self trait name args,arrowless => by
    obtain ⟨both,argless⟩ := Nat.add_eq_zero_iff.mp arrowless
    obtain ⟨selfless,traitless⟩ := Nat.add_eq_zero_iff.mp both
    have named := (nested_of_other name.plain).append (args.nested_angles argless)
    rw [Nat.zero_max] at named
    have as : Nested turn 0 [' ','a','s',' '] := nested_of_other (by simp [turn])
    have within := (self.nested_print selfless).append (as.append (trait.nested_print traitless))
    rw [Nat.zero_max] at within
    have opening := within.wrap (a := '<') (b := '>') rfl rfl
    exact opening.append ((named.cons_other (a := ':') rfl).cons_other (a := ':') rfl)
  | .segment path name args,arrowless => by
    obtain ⟨pathless,argless⟩ := Nat.add_eq_zero_iff.mp arrowless
    have named := (nested_of_other name.plain).append (args.nested_angles argless)
    rw [Nat.zero_max] at named
    exact (path.nested_print pathless).append
      ((named.cons_other (a := ':') rfl).cons_other (a := ':') rfl)

theorem Items.nested_print : ∀ items : Items, items.arrows = 0 → Nested turn items.depth items.print
  | .nil,_ => nested_of_other (by simp [Items.print])
  | .cons item items,arrowless => by
    obtain ⟨itemless,restless⟩ := Nat.add_eq_zero_iff.mp arrowless
    exact (item.nested_print itemless).append (items.nested_more restless)

theorem Items.nested_more : ∀ items : Items, items.arrows = 0 → Nested turn items.depth items.more
  | .nil,_ => nested_of_other (by simp [Items.more])
  | .cons item items,arrowless => by
    obtain ⟨itemless,restless⟩ := Nat.add_eq_zero_iff.mp arrowless
    have nested := (item.nested_print itemless).append (items.nested_more restless)
    exact (nested.cons_other (a := ' ') rfl).cons_other (a := ',') rfl

theorem Items.nested_angles :
    ∀ items : Items, items.arrows = 0 → Nested turn items.anglesDepth items.angles
  | .nil,_ => nested_of_other (by simp [Items.angles])
  | .cons item items,arrowless => by
    obtain ⟨itemless,restless⟩ := Nat.add_eq_zero_iff.mp arrowless
    exact ((item.nested_print itemless).append (items.nested_more restless)).wrap rfl rfl

end

end Depth

end XxCore.Log
