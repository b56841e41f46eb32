import SqueezeOS.ErrorTerm
import Mathlib.Algebra.Order.Field.Basic
import Mathlib.Algebra.Order.Field.Rat
import Mathlib.Data.List.Range
import Mathlib.Tactic.FieldSimp

/- Drawing on the frame buffer of the Jive, from its test programs: lines, and rectangles and
   polygons of lines. All ints stay in range for points of a screen. -/
namespace JiveDraw
open ErrorTerm

structure Pixel where
  x : Int
  y : Int
  color : BitVec 16
  deriving DecidableEq, Repr

/-- The place behind ddisp that is written, and what is written there; xres is unsigned. -/
def pixel (xres : Nat) (p : Pixel) : Nat × BitVec 16 :=
  (((p.y * xres + p.x) % 2 ^ 32).toNat, p.color)

structure Pen where
  x : Int
  y : Int
  dXY : Int
  deriving DecidableEq, Repr

def direction (d : Int) : Int × Int := if d ≥ 0 then (1, d) else (-1, -d)

def alongX (dx dy stepX stepY : Int) (s : Pen) : Pen :=
  let s := if s.dXY > 0 then { s with dXY := s.dXY - dx, y := s.y + stepY } else s
  { s with dXY := s.dXY + dy, x := s.x + stepX }

def alongY (dx dy stepX stepY : Int) (s : Pen) : Pen :=
  let s := if s.dXY > 0 then { s with dXY := s.dXY - dy, x := s.x + stepX } else s
  { s with dXY := s.dXY + dx, y := s.y + stepY }

def draw (next : Pen → Pen) (color : BitVec 16) : Nat → Pen → List Pixel
  | 0, _ => []
  | n + 1, s => { x := s.x, y := s.y, color := color } :: draw next color n (next s)

def line (x y xx yy : Int) (color : BitVec 16) : List Pixel :=
  let (stepX, dx) := direction (xx - x)
  let (stepY, dy) := direction (yy - y)
  let pen : Pen := { x := x, y := y, dXY := dy - dx }
  if dx ≥ dy then draw (alongX dx dy stepX stepY) color dx.toNat pen
  else draw (alongY dx dy stepX stepY) color dy.toNat pen

def rect (x y xx yy : Int) (color : BitVec 16) : List Pixel :=
  line x y x yy color ++ line x y xx y color ++ line xx y xx yy color ++ line x yy xx yy color

def polygon (n : Int) (coord : Nat → Int) (color : BitVec 16) : List Pixel :=
  if n ≥ 2 then
    line (coord 0) (coord 1) (coord 2) (coord 3) color ++
      (List.range' 1 (n - 1 - 1).toNat).flatMap fun count =>
        line (coord (count * 2)) (coord (count * 2 + 1))
          (coord ((count + 1) * 2)) (coord ((count + 1) * 2 + 1)) color
  else []

def OnScreen (xres yres : Nat) (x y : Int) : Prop := 0 ≤ x ∧ x < xres ∧ 0 ≤ y ∧ y < yres

def Mapped (xres yres : Nat) (p : Pixel) : Prop := (pixel xres p).1 < xres * yres

def InBox (x y xx yy : Int) (p : Pixel) : Prop :=
  (min x xx ≤ p.x ∧ p.x ≤ max x xx) ∧ min y yy ≤ p.y ∧ p.y ≤ max y yy

def Stepped (x y xx yy : Int) (p q : Pixel) : Prop :=
  if |yy - y| ≤ |xx - x| then |q.x - p.x| = 1 ∧ |q.y - p.y| ≤ 1
  else |q.y - p.y| = 1 ∧ |q.x - p.x| ≤ 1

/-- From the straight line to a pixel, along the shorter axis. -/
def offLine (x y xx yy : Int) (p : Pixel) : ℚ :=
  if |yy - y| ≤ |xx - x| then p.y - (y + (p.x - x) * ((yy - y) / (xx - x)))
  else p.x - (x + (p.y - y) * ((xx - x) / (yy - y)))

structure OnItsLine (x y xx yy : Int) (color : BitVec 16) : Prop where
  inBox : ∀ p ∈ line x y xx yy color, InBox x y xx yy p
  stepped : (line x y xx yy color).IsChain (Stepped x y xx yy)
  near : ∀ p ∈ line x y xx yy color, |offLine x y xx yy p| < 1

/-- A line that is not steep comes to no pixel of the straight line before its end, unless it is
    horizontal; a steep one is at most a step longer than twice its width. -/
def Clear (x y xx yy : Int) : Prop :=
  if (yy - y).natAbs ≤ (xx - x).natAbs then
    (yy - y).natAbs = 0 ∨ (yy - y).natAbs.Coprime (xx - x).natAbs
  else (yy - y).natAbs ≤ 2 * (xx - x).natAbs + 1

theorem direction_spec (d : Int) : (direction d).2 = d.natAbs ∧
    d = (direction d).1 * d.natAbs ∧ ((direction d).1 = 1 ∨ (direction d).1 = -1) := by
  unfold direction
  split
  · rename_i forward
    have length := Int.natAbs_of_nonneg forward
    exact ⟨length.symm,by rw [one_mul, length],.inl rfl⟩
  · rename_i backward
    have length := Int.ofNat_natAbs_of_nonpos (not_le.mp backward).le
    exact ⟨length.symm,by rw [length, neg_one_mul, neg_neg],.inr rfl⟩

theorem draw_eq (next : Pen → Pen) (color : BitVec 16) (n : Nat) (s : Pen) :
    draw next color n s = (List.range n).map fun i =>
      { x := (next^[i] s).x, y := (next^[i] s).y, color := color } := by
  induction n generalizing s with
  | zero => rfl
  | succ n ih =>
    rw [draw, ih, List.range_succ_eq_map, List.map_cons, List.map_map]
    rfl

section
variable {n m stepX stepY x y first : Int}

theorem alongX_iterate (i : Nat) :
    (alongX n m stepX stepY)^[i] ⟨x,y,first⟩ =
      ⟨x + stepX * i,y + stepY * (walk n m first i).steps,(walk n m first i).error⟩ := by
  induction i with
  | zero => simp [walk]
  | succ i ih =>
    rw [Function.iterate_succ_apply', ih, walk, alongX, advance]
    split
    · simp only [Nat.cast_succ, mul_add, mul_one, add_assoc]
    · simp only [Nat.cast_succ, mul_add, mul_one, add_assoc]

theorem alongY_iterate (i : Nat) :
    (alongY m n stepX stepY)^[i] ⟨x,y,first⟩ =
      ⟨x + stepX * (walk n m first i).steps,y + stepY * i,(walk n m first i).error⟩ := by
  induction i with
  | zero => simp [walk]
  | succ i ih =>
    rw [Function.iterate_succ_apply', ih, walk, alongY, advance]
    split
    · simp only [Nat.cast_succ, mul_add, mul_one, add_assoc]
    · simp only [Nat.cast_succ, mul_add, mul_one, add_assoc]

end

structure Drawn (x y xx yy : Int) (color : BitVec 16) (stepX stepY : Int) (width height : Nat) :
    Prop where
  unitX : stepX = 1 ∨ stepX = -1
  unitY : stepY = 1 ∨ stepY = -1
  endX : xx = x + stepX * width
  endY : yy = y + stepY * height
  flat : height ≤ width → line x y xx yy color = (List.range width).map fun i => {
    x := x + stepX * i
    y := y + stepY * (walk width height (height - width) i).steps
    color := color }
  steep : width < height → line x y xx yy color = (List.range height).map fun i => {
    x := x + stepX * (walk height width (height - width) i).steps
    y := y + stepY * i
    color := color }

theorem line_drawn (x y xx yy : Int) (color : BitVec 16) :
    Drawn x y xx yy color (direction (xx - x)).1 (direction (yy - y)).1 (xx - x).natAbs
      (yy - y).natAbs := by
  obtain ⟨lengthX,width,unitX⟩ := direction_spec (xx - x)
  obtain ⟨lengthY,height,unitY⟩ := direction_spec (yy - y)
  refine ⟨unitX,unitY,by omega,by omega,?_,?_⟩
  · intro flat
    have along : ((xx - x).natAbs : Int) ≥ (yy - y).natAbs := by omega
    simp only [line, lengthX, lengthY, if_pos along, draw_eq, alongX_iterate, Int.toNat_natCast]
  · intro steep
    have along : ¬((xx - x).natAbs : Int) ≥ (yy - y).natAbs := by omega
    simp only [line, lengthX, lengthY, if_neg along, draw_eq, alongY_iterate, Int.toNat_natCast]

/-- An int holds the error term of a line that is less than 2^31 long, whatever is computed. -/
theorem dXY_fits {long short : Nat} (shorter : short ≤ long) (fits : long < 2 ^ 31) {first : Int}
    (start : short - long ≤ first ∧ first ≤ long) (i : Nat) :
    |(walk long short first i).error| < 2 ^ 31 ∧
    (0 < (walk long short first i).error → |(walk long short first i).error - long| < 2 ^ 31) := by
  have bounds := error_bounds (n := long) (m := short) (by omega) start i
  rw [abs_lt, abs_lt]
  omega

theorem between_iff {a step : Int} (unit : step = 1 ∨ step = -1) (length : Nat) (k : Int) :
    (min a (a + step * length) ≤ a + step * k ∧ a + step * k ≤ max a (a + step * length)) ↔
      0 ≤ k ∧ k ≤ length := by
  rcases unit with rfl | rfl
  · omega
  · omega

theorem abs_step {step : Int} (unit : step = 1 ∨ step = -1) (k : Int) : |step * k| = |k| := by
  rcases unit with rfl | rfl
  · rw [one_mul]
  · rw [neg_one_mul, abs_neg]

theorem one_step {step : Int} (unit : step = 1 ∨ step = -1) (a : Int) (i : Nat) :
    |a + step * (i + 1 : Nat) - (a + step * i)| = 1 := by
  have difference : a + step * (i + 1 : Nat) - (a + step * i) = step * 1 := by
    push_cast
    ring
  rw [difference, abs_step unit, abs_one]

theorem at_most_one {step : Int} (unit : step = 1 ∨ step = -1) (a : Int) {k l : Int}
    (next : k ≤ l ∧ l ≤ k + 1) : |a + step * l - (a + step * k)| ≤ 1 := by
  have difference : a + step * l - (a + step * k) = step * (l - k) := by ring
  rw [difference, abs_step unit, abs_le]
  omega

theorem straight_iff {stepA stepB : Int} (unitA : stepA = 1 ∨ stepA = -1)
    (unitB : stepB = 1 ∨ stepB = -1) {n : Nat} (some : 0 < n) (m : Nat) (a b i k : Int) :
    |((b + stepB * k : Int) : ℚ) - (b + (((a + stepA * i : Int) : ℚ) - a) *
      ((((b + stepB * m : Int) : ℚ) - b) / (((a + stepA * n : Int) : ℚ) - a)))| < 1 ↔
      |k * n - i * m| < n := by
  have positive : (0 : ℚ) < n := by exact_mod_cast some
  have quotient : ((b + stepB * k : Int) : ℚ) - (b + (((a + stepA * i : Int) : ℚ) - a) *
      ((((b + stepB * m : Int) : ℚ) - b) / (((a + stepA * n : Int) : ℚ) - a))) =
      (stepB * (k * n - i * m) : Int) / (n : ℚ) := by
    have nonzero : (n : ℚ) ≠ 0 := positive.ne'
    push_cast
    simp only [add_sub_cancel_left]
    rcases unitA with rfl | rfl
    · field_simp
      ring
    · field_simp
      ring
  rw [quotient, abs_div, Nat.abs_cast, div_lt_one positive]
  rw [← Int.cast_abs, abs_step unitB]
  exact_mod_cast Iff.rfl

section
variable {x y xx yy stepX stepY : Int} {color : BitVec 16} {width height : Nat}

theorem Drawn.widthX (drawn : Drawn x y xx yy color stepX stepY width height) :
    |xx - x| = width := by
  rw [drawn.endX, add_sub_cancel_left, abs_step drawn.unitX, Nat.abs_cast]

theorem Drawn.heightY (drawn : Drawn x y xx yy color stepX stepY width height) :
    |yy - y| = height := by
  rw [drawn.endY, add_sub_cancel_left, abs_step drawn.unitY, Nat.abs_cast]

theorem Drawn.flat_iff (drawn : Drawn x y xx yy color stepX stepY width height)
    (flat : height ≤ width) : |yy - y| ≤ |xx - x| := by
  rw [drawn.widthX, drawn.heightY]
  exact_mod_cast flat

theorem Drawn.steep_iff (drawn : Drawn x y xx yy color stepX stepY width height)
    (steep : width < height) : ¬|yy - y| ≤ |xx - x| := by
  rw [drawn.widthX, drawn.heightY]
  exact_mod_cast not_le.mpr steep

theorem onItsLine_map {n : Nat} {spot : Nat → Pixel}
    (drawn : line x y xx yy color = (List.range n).map spot)
    (stepped : ∀ i, Stepped x y xx yy (spot i) (spot (i + 1))) :
    OnItsLine x y xx yy color ↔
      ∀ i < n, InBox x y xx yy (spot i) ∧ |offLine x y xx yy (spot i)| < 1 := by
  constructor
  · rintro ⟨inBox,_,near⟩ i within
    rw [drawn, List.forall_mem_map] at inBox near
    exact ⟨inBox i (List.mem_range.mpr within),near i (List.mem_range.mpr within)⟩
  · intro spots
    refine ⟨?_,?_,?_⟩
    · rw [drawn, List.forall_mem_map]
      intro i within
      exact (spots i (List.mem_range.mp within)).1
    · rw [drawn, List.isChain_map, List.isChain_range]
      intro i _
      exact stepped i
    · rw [drawn, List.forall_mem_map]
      intro i within
      exact (spots i (List.mem_range.mp within)).2

theorem Drawn.flat_inBox (drawn : Drawn x y xx yy color stepX stepY width height)
    (flat : height ≤ width) {i : Nat} (within : i < width) : InBox x y xx yy
      ⟨x + stepX * i,y + stepY * (walk width height (height - width) i).steps,color⟩ := by
  rw [InBox, drawn.endX, drawn.endY, between_iff drawn.unitX, between_iff drawn.unitY]
  exact ⟨by omega,steps_nonneg _ _ _ _,lagging_steps flat within⟩

theorem Drawn.steep_inBox_iff (drawn : Drawn x y xx yy color stepX stepY width height) {i : Nat}
    (within : i < height) : InBox x y xx yy
      ⟨x + stepX * (walk height width (height - width) i).steps,y + stepY * i,color⟩ ↔
      (walk height width (height - width) i).steps ≤ width := by
  rw [InBox, drawn.endX, drawn.endY, between_iff drawn.unitX, between_iff drawn.unitY]
  have some := steps_nonneg height width (height - width) i
  omega

theorem Drawn.onItsLine_flat (drawn : Drawn x y xx yy color stepX stepY width height)
    (flat : height ≤ width) :
    OnItsLine x y xx yy color ↔ height = 0 ∨ height.Coprime width := by
  have longer := drawn.flat_iff flat
  rw [onItsLine_map (drawn.flat flat) ?_, ← lagging_iff flat]
  · apply forall₂_congr
    intro i within
    have near := straight_iff drawn.unitX drawn.unitY (by omega : 0 < width) height x y i
      (walk width height (height - width) i).steps
    rw [← drawn.endX, ← drawn.endY] at near
    rw [offLine, if_pos longer, near, and_iff_right (drawn.flat_inBox flat within)]
    have behind := (lagging_ahead flat i).2
    change |ahead width height (height - width) i| < width ↔ _
    rw [abs_lt, and_iff_left]
    omega
  · intro i
    rw [Stepped, if_pos longer]
    exact ⟨one_step drawn.unitX x i,at_most_one drawn.unitY y (steps_monotone _ _ _ i)⟩

theorem Drawn.onItsLine_steep (drawn : Drawn x y xx yy color stepX stepY width height)
    (steep : width < height) : OnItsLine x y xx yy color ↔ height ≤ 2 * width + 1 := by
  have longer := drawn.steep_iff steep
  rw [onItsLine_map (drawn.steep steep) ?_, ← leading_iff steep]
  · apply forall₂_congr
    intro i within
    have near := straight_iff drawn.unitY drawn.unitX (by omega : 0 < height) width y x i
      (walk height width (height - width) i).steps
    rw [← drawn.endX, ← drawn.endY] at near
    rw [offLine, if_neg longer, near, drawn.steep_inBox_iff within]
    have behind := leading_behind steep i
    change _ ∧ |ahead height width (height - width) i| < height ↔ _
    rw [abs_lt, and_iff_right behind]
    exact ⟨fun both => ⟨both.1,both.2⟩,fun leads => ⟨leads.steps,leads.near⟩⟩
  · intro i
    rw [Stepped, if_neg longer]
    exact ⟨one_step drawn.unitY y i,at_most_one drawn.unitX x (steps_monotone _ _ _ i)⟩

end

theorem onItsLine_iff (x y xx yy : Int) (color : BitVec 16) :
    OnItsLine x y xx yy color ↔ Clear x y xx yy := by
  have drawn := line_drawn x y xx yy color
  unfold Clear
  split
  · rename_i flat
    exact drawn.onItsLine_flat flat
  · rename_i steep
    exact drawn.onItsLine_steep (not_le.mp steep)

section
variable {xres yres : Nat}

theorem mapped_of {p : Pixel} (lower : 0 ≤ p.y * xres + p.x)
    (upper : p.y * xres + p.x < yres * xres) : Mapped xres yres p := by
  have size : ((xres * yres : Nat) : Int) = yres * xres := by
    push_cast
    ring
  unfold Mapped pixel
  generalize p.y * xres + p.x = offset at lower upper
  omega

theorem OnScreen.mapped {x y : Int} (onScreen : OnScreen xres yres x y) (color : BitVec 16) :
    Mapped xres yres ⟨x,y,color⟩ := by
  obtain ⟨left,right,top,bottom⟩ := onScreen
  have row : y * xres ≤ (yres - 1) * xres := mul_le_mul_of_nonneg_right (by omega) (by omega)
  have first := mul_nonneg top (Int.natCast_nonneg xres)
  apply mapped_of
  · exact add_nonneg first left
  · linarith

theorem mapped_beside {x y : Int} (beside : -1 ≤ x ∧ x ≤ xres) (inner : 1 ≤ y ∧ y + 2 ≤ yres)
    (some : 0 < xres) (color : BitVec 16) : Mapped xres yres ⟨x,y,color⟩ := by
  have first : 1 * (xres : Int) ≤ y * xres := mul_le_mul_of_nonneg_right inner.1 (by omega)
  have row : (y + 2) * xres ≤ yres * xres := mul_le_mul_of_nonneg_right inner.2 (by omega)
  apply mapped_of
  · simp only
    linarith
  · simp only
    linarith

theorem InBox.onScreen {x y xx yy : Int} {p : Pixel} (inBox : InBox x y xx yy p)
    (start : OnScreen xres yres x y) (stop : OnScreen xres yres xx yy) :
    OnScreen xres yres p.x p.y := by
  unfold InBox at inBox
  unfold OnScreen at start stop ⊢
  omega

theorem line_mapped {x y xx yy : Int} (start : OnScreen xres yres x y)
    (stop : OnScreen xres yres xx yy) (color : BitVec 16) :
    ∀ p ∈ line x y xx yy color, Mapped xres yres p := by
  have drawn := line_drawn x y xx yy color
  generalize (direction (xx - x)).1 = stepX, (direction (yy - y)).1 = stepY,
    (xx - x).natAbs = width, (yy - y).natAbs = height at drawn
  rcases Nat.lt_or_ge width height with steep | flat
  · rw [drawn.steep steep, List.forall_mem_map]
    intro i member
    have within := List.mem_range.mp member
    by_cases few : (walk height width (height - width) i).steps ≤ width
    · exact (((drawn.steep_inBox_iff within).mpr few).onScreen start stop).mapped color
    · have last : (walk height width (height - width) i).steps = width + 1 := by
        have most := leading_steps steep within
        omega
      have later : i ≠ 0 := by
        rintro rfl
        exact few (Int.natCast_nonneg width)
      rw [last]
      obtain ⟨unitX,unitY,endX,endY,_,_⟩ := drawn
      unfold OnScreen at start stop
      apply mapped_beside
      · rcases unitX with rfl | rfl
        · omega
        · omega
      · rcases unitY with rfl | rfl
        · omega
        · omega
      · omega
  · rw [drawn.flat flat, List.forall_mem_map]
    intro i member
    exact ((drawn.flat_inBox flat (List.mem_range.mp member)).onScreen start stop).mapped color

theorem rect_mapped {x y xx yy : Int} (start : OnScreen xres yres x y)
    (stop : OnScreen xres yres xx yy) (color : BitVec 16) :
    ∀ p ∈ rect x y xx yy color, Mapped xres yres p := by
  obtain ⟨left,right,top,bottom⟩ := start
  obtain ⟨left',right',top',bottom'⟩ := stop
  intro p member
  simp only [rect, List.mem_append] at member
  rcases member with ((side | side) | side) | side
  all_goals exact line_mapped (by unfold OnScreen; omega) (by unfold OnScreen; omega) color p side

theorem polygon_mapped {n : Int} {coord : Nat → Int}
    (corners : ∀ k : Nat, k < n → OnScreen xres yres (coord (k * 2)) (coord (k * 2 + 1)))
    (color : BitVec 16) : ∀ p ∈ polygon n coord color, Mapped xres yres p := by
  intro p member
  unfold polygon at member
  split at member
  · rcases List.mem_append.mp member with first | later
    · exact line_mapped (corners 0 (by omega)) (corners 1 (by omega)) color p first
    · obtain ⟨count,counted,drawn⟩ := List.mem_flatMap.mp later
      obtain ⟨_,last⟩ := List.mem_range'_1.mp counted
      exact line_mapped (corners count (by omega)) (corners (count + 1) (by push_cast; omega))
        color p drawn
  · contradiction

end

/-- On a screen, a line stays on its line exactly when it is clear; and whether or not it does,
    a rectangle and a polygon are written to the mapped memory only. -/
theorem line_stays_on_its_line (xres yres : Nat) (color : BitVec 16) :
    (∀ x y xx yy, OnScreen xres yres x y → OnScreen xres yres xx yy →
      (OnItsLine x y xx yy color ↔ Clear x y xx yy) ∧
      ∀ p ∈ rect x y xx yy color, Mapped xres yres p) ∧
    ∀ (n : Int) coord, (∀ k : Nat, k < n → OnScreen xres yres (coord (k * 2)) (coord (k * 2 + 1))) →
      ∀ p ∈ polygon n coord color, Mapped xres yres p := by
  refine ⟨?_,?_⟩
  · intro x y xx yy start stop
    exact ⟨onItsLine_iff x y xx yy color,rect_mapped start stop color⟩
  · intro n coord corners
    exact polygon_mapped corners color

/-- The right edge of a screen: all but the first pixel are beside it. -/
theorem rightEdge_leaves : OnScreen 240 320 239 0 ∧ OnScreen 240 320 239 3 ∧
    line 239 0 239 3 0 = [⟨239,0,0⟩, ⟨240,1,0⟩, ⟨240,2,0⟩] ∧ ¬OnItsLine 239 0 239 3 0 := by
  have drawn : line 239 0 239 3 0 = [⟨239,0,0⟩, ⟨240,1,0⟩, ⟨240,2,0⟩] := by decide
  refine ⟨by unfold OnScreen; omega,by unfold OnScreen; omega,drawn,?_⟩
  intro onItsLine
  have inBox := onItsLine.inBox
  rw [drawn] at inBox
  exact absurd (inBox ⟨240,1,0⟩ (by simp)) (by simp [InBox])

end JiveDraw
