namespace DeskCalculator

/-!
# Elementary functions

Powers, logarithms and the trigonometric functions are not described by the
float format but taken from the platform.  A calculation is defined with any
functions in their place; where no others are named, those of the platform are
meant.
-/

/-- The functions that a calculation takes from its platform. -/
class Elementary where
  power : Float -> Float -> Float
  logarithm : Float -> Float
  sine : Float -> Float
  cosine : Float -> Float
  tangent : Float -> Float

/-- The functions of the platform itself. -/
instance Elementary.ofPlatform : Elementary where
  power := Float.pow
  logarithm := Float.log
  sine := Float.sin
  cosine := Float.cos
  tangent := Float.tan

end DeskCalculator
