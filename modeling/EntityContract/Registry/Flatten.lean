import EntityContract.Registry.Basic
import EntityContract.Shape.Merge

/-!
Shapes that come down to one object: an object, a reference to one, or an intersection of such.
-/

namespace EntityContract

namespace Shape

/-- The one object that the shape comes down to, given the objects that references come to. -/
def flattenWith (follow : String → Option ObjectShape) : Shape → Option ObjectShape
  | .object fields policy => some ⟨fields, policy⟩
  | .ref key => follow key
  | .intersection left right => do
    let left ← left.flattenWith follow
    let right ← right.flattenWith follow
    return left.merge right
  | _ => none

end Shape

namespace Registry

/-- The object that a reference comes to, unless it leads back to one of the keys on the way. As
these are distinct registered keys, one round for each entity is enough. -/
def follow (registry : Registry) (onTheWay : List String) : Nat → String → Option ObjectShape
  | 0, _ => none
  | rounds + 1, key =>
    if onTheWay.contains key then none
    else do
      let shape ← registry.shape? key
      shape.flattenWith (registry.follow (key :: onTheWay) rounds)

def flatten (registry : Registry) (shape : Shape) : Option ObjectShape :=
  shape.flattenWith (registry.follow [] registry.size)

end Registry

end EntityContract
