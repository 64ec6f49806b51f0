import Mathlib.Data.List.GetD
import Lws.Pratt
/-!
# TableSizes — the sizes a table can have (`lws_table_sizes`, `lws_table_size`, `lws_table_load`)

The two builds list the same sizes up to `UINT32_MAX`; the 64-bit build goes on from there.  The list is ascending and all of
it is prime, by Pratt certificates; `tableSize` returns the smallest listed size that is large enough (`tableSize_spec`).
-/
namespace Lws

/-- The build: `SIZE_MAX > UINT32_MAX` or not. -/
inductive Build where
  | b64
  | b32
deriving DecidableEq, Repr

/-- Bits of `size_t`, `ngx_uint_t` and pointers. -/
def Build.bits : Build → Nat
  | .b64 => 64
  | .b32 => 32

def tableSizesCommon : List Nat := [
  3, 5, 7, 11, 13, 17, 23, 29, 41, 53, 67, 89, 127, 157, 211, 277, 373, 499, 659, 877, 1171, 1553, 2081, 2767, 3691,
  4909, 6547, 8731, 11633, 15511, 20681, 27581, 36749, 49003, 65353, 87107, 116141, 154871, 206477, 275299, 367069,
  489427, 652559, 870083, 1160111, 1546799, 2062391, 2749847, 3666461, 4888619, 6518173, 8690917, 11587841,
  15450437, 20600597, 27467443, 36623261, 48831017, 65107997, 86810681, 115747549, 154330079, 205773427, 274364561,
  365819417, 487759219, 650345651, 867127501, 1156170011, 1541560037, 2055413317, 2740551103, 3654068141]

def tableSizesLarge : List Nat := [
  4872090871, 6496121063, 8661494753, 11548659701, 15398212901, 20530950533, 27374600677, 36499467569, 48665956771,
  64887942367, 86517256433, 115356341911, 153808455923, 205077941191, 273437254897, 364583006561, 486110675443,
  648147567293, 864196756231, 1152262341641, 1536349788871, 2048466385123, 2731288513529, 3641718017983,
  4855624023953, 6474165365293, 8632220487029, 11509627316059, 15346169754719, 20461559672951, 27282079563967,
  36376106085223, 48501474780299, 64668633040457, 86224844053847, 114966458738489, 153288611651291, 204384815535079,
  272513087380099]

def Build.tableSizes : Build → List Nat
  | .b64 => tableSizesCommon ++ tableSizesLarge
  | .b32 => tableSizesCommon

/-- The loop of `lws_table_size`: `int` bounds, the upper one may become `-1`. -/
def sizeLoop (sizes : List Nat) (size : Nat) : Nat → Int → Int → Int
  | 0, lower, _ => lower
  | fuel + 1, lower, upper =>
    if lower ≤ upper then
      let mid := (lower + upper) / 2
      if sizes.getD mid.toNat 0 < size then sizeLoop sizes size fuel (mid + 1) upper
      else sizeLoop sizes size fuel lower (mid - 1)
    else lower

/-- `lws_table_size`; `none` is `(size_t)-1`, table size too large. -/
def tableSize (b : Build) (size : Nat) : Option Nat :=
  let n := b.tableSizes.length
  let lower := sizeLoop b.tableSizes size (n + 1) 0 (n - 1)
  if lower ≥ n then none else some (b.tableSizes.getD lower.toNat 0)

/-- `lws_table_load`: about 87.5 percent. -/
def tableLoad (alloc : Nat) : Nat := (alloc >>> 1) + (alloc >>> 2) + (alloc >>> 3)

/-! ## Every size is prime -/

def sizeCerts : List Pratt.Cert := [
  ⟨3, 2, [2]⟩, ⟨5, 2, [2, 2]⟩, ⟨7, 3, [2, 3]⟩, ⟨11, 2, [2, 5]⟩, ⟨13, 2, [2, 2, 3]⟩, ⟨17, 3, [2, 2, 2, 2]⟩, ⟨23, 5,
  [2, 11]⟩, ⟨29, 2, [2, 2, 7]⟩, ⟨41, 6, [2, 2, 2, 5]⟩, ⟨53, 2, [2, 2, 13]⟩, ⟨67, 2, [2, 3, 11]⟩, ⟨89, 3, [2, 2, 2,
  11]⟩, ⟨127, 3, [2, 3, 3, 7]⟩, ⟨157, 5, [2, 2, 3, 13]⟩, ⟨211, 2, [2, 3, 5, 7]⟩, ⟨277, 5, [2, 2, 3, 23]⟩, ⟨31, 3,
  [2, 3, 5]⟩, ⟨373, 2, [2, 2, 3, 31]⟩, ⟨83, 2, [2, 41]⟩, ⟨499, 7, [2, 3, 83]⟩, ⟨47, 5, [2, 23]⟩, ⟨659, 2, [2, 7,
  47]⟩, ⟨73, 5, [2, 2, 2, 3, 3]⟩, ⟨877, 2, [2, 2, 3, 73]⟩, ⟨1171, 2, [2, 3, 3, 5, 13]⟩, ⟨97, 5, [2, 2, 2, 2, 2, 3]⟩,
  ⟨1553, 3, [2, 2, 2, 2, 97]⟩, ⟨2081, 3, [2, 2, 2, 2, 2, 5, 13]⟩, ⟨461, 2, [2, 2, 5, 23]⟩, ⟨2767, 3, [2, 3, 461]⟩,
  ⟨3691, 2, [2, 3, 3, 5, 41]⟩, ⟨409, 21, [2, 2, 2, 3, 17]⟩, ⟨4909, 6, [2, 2, 3, 409]⟩, ⟨109, 6, [2, 2, 3, 3, 3]⟩,
  ⟨1091, 2, [2, 5, 109]⟩, ⟨6547, 2, [2, 3, 1091]⟩, ⟨8731, 2, [2, 3, 3, 5, 97]⟩, ⟨727, 5, [2, 3, 11, 11]⟩, ⟨11633, 3,
  [2, 2, 2, 2, 727]⟩, ⟨15511, 3, [2, 3, 5, 11, 47]⟩, ⟨20681, 3, [2, 2, 2, 5, 11, 47]⟩, ⟨197, 2, [2, 2, 7, 7]⟩,
  ⟨27581, 2, [2, 2, 5, 7, 197]⟩, ⟨1531, 2, [2, 3, 3, 5, 17]⟩, ⟨9187, 3, [2, 3, 1531]⟩, ⟨36749, 2, [2, 2, 9187]⟩,
  ⟨1361, 3, [2, 2, 2, 2, 5, 17]⟩, ⟨8167, 3, [2, 3, 1361]⟩, ⟨49003, 13, [2, 3, 8167]⟩, ⟨389, 2, [2, 2, 97]⟩, ⟨65353,
  5, [2, 2, 2, 3, 7, 389]⟩, ⟨449, 3, [2, 2, 2, 2, 2, 2, 7]⟩, ⟨87107, 2, [2, 97, 449]⟩, ⟨1451, 2, [2, 5, 5, 29]⟩,
  ⟨2903, 5, [2, 1451]⟩, ⟨5807, 5, [2, 2903]⟩, ⟨116141, 2, [2, 2, 5, 5807]⟩, ⟨911, 17, [2, 5, 7, 13]⟩, ⟨154871, 13,
  [2, 5, 17, 911]⟩, ⟨37, 2, [2, 2, 3, 3]⟩, ⟨1259, 2, [2, 17, 37]⟩, ⟨206477, 2, [2, 2, 41, 1259]⟩, ⟨19, 2, [2, 3,
  3]⟩, ⟨71, 7, [2, 5, 7]⟩, ⟨2699, 2, [2, 19, 71]⟩, ⟨275299, 2, [2, 3, 17, 2699]⟩, ⟨181, 2, [2, 2, 3, 3, 5]⟩,
  ⟨367069, 2, [2, 2, 3, 13, 13, 181]⟩, ⟨43, 3, [2, 3, 7]⟩, ⟨271, 6, [2, 3, 3, 3, 5]⟩, ⟨489427, 2, [2, 3, 7, 43,
  271]⟩, ⟨11251, 13, [2, 3, 3, 5, 5, 5, 5]⟩, ⟨652559, 17, [2, 29, 11251]⟩, ⟨151, 6, [2, 3, 5, 5]⟩, ⟨2719, 3, [2, 3,
  3, 151]⟩, ⟨435041, 3, [2, 2, 2, 2, 2, 5, 2719]⟩, ⟨870083, 2, [2, 435041]⟩, ⟨1381, 2, [2, 2, 3, 5, 23]⟩, ⟨16573, 2,
  [2, 2, 3, 1381]⟩, ⟨1160111, 7, [2, 5, 7, 16573]⟩, ⟨70309, 6, [2, 2, 3, 3, 3, 3, 7, 31]⟩, ⟨1546799, 7, [2, 11,
  70309]⟩, ⟨18749, 2, [2, 2, 43, 109]⟩, ⟨2062391, 7, [2, 5, 11, 18749]⟩, ⟨1033, 5, [2, 2, 2, 3, 43]⟩, ⟨2749847, 5,
  [2, 11, 11, 11, 1033]⟩, ⟨26189, 2, [2, 2, 6547]⟩, ⟨3666461, 2, [2, 2, 5, 7, 26189]⟩, ⟨7591, 6, [2, 3, 5, 11, 23]⟩,
  ⟨349187, 2, [2, 23, 7591]⟩, ⟨4888619, 2, [2, 7, 349187]⟩, ⟨3001, 14, [2, 2, 2, 3, 5, 5, 5]⟩, ⟨6518173, 2, [2, 2,
  3, 181, 3001]⟩, ⟨103, 5, [2, 3, 17]⟩, ⟨619, 2, [2, 3, 103]⟩, ⟨55711, 3, [2, 3, 3, 5, 619]⟩, ⟨8690917, 5, [2, 2, 3,
  13, 55711]⟩, ⟨137, 3, [2, 2, 2, 17]⟩, ⟨823, 3, [2, 3, 137]⟩, ⟨11587841, 3, [2, 2, 2, 2, 2, 2, 2, 2, 5, 11, 823]⟩,
  ⟨80471, 17, [2, 5, 13, 619]⟩, ⟨3862609, 17, [2, 2, 2, 2, 3, 80471]⟩, ⟨15450437, 2, [2, 2, 3862609]⟩, ⟨2633, 3, [2,
  2, 2, 7, 47]⟩, ⟨163, 2, [2, 3, 3, 3, 3]⟩, ⟨5150149, 2, [2, 2, 3, 163, 2633]⟩, ⟨20600597, 2, [2, 2, 5150149]⟩,
  ⟨883, 2, [2, 3, 3, 7, 7]⟩, ⟨10597, 5, [2, 2, 3, 883]⟩, ⟨1525969, 23, [2, 2, 2, 2, 3, 3, 10597]⟩, ⟨27467443, 3, [2,
  3, 3, 1525969]⟩, ⟨1721, 3, [2, 2, 2, 5, 43]⟩, ⟨96377, 3, [2, 2, 2, 7, 1721]⟩, ⟨36623261, 2, [2, 2, 5, 19, 96377]⟩,
  ⟨193, 5, [2, 2, 2, 2, 2, 2, 3]⟩, ⟨3089, 3, [2, 2, 2, 2, 193]⟩, ⟨469529, 6, [2, 2, 2, 19, 3089]⟩, ⟨48831017, 3, [2,
  2, 2, 13, 469529]⟩, ⟨401, 3, [2, 2, 2, 2, 5, 5]⟩, ⟨3209, 3, [2, 2, 2, 401]⟩, ⟨25673, 3, [2, 2, 2, 3209]⟩, ⟨51347,
  2, [2, 25673]⟩, ⟨79, 3, [2, 3, 13]⟩, ⟨317, 2, [2, 2, 79]⟩, ⟨65107997, 2, [2, 2, 317, 51347]⟩, ⟨59, 2, [2, 29]⟩,
  ⟨197297, 3, [2, 2, 2, 2, 11, 19, 59]⟩, ⟨86810681, 6, [2, 2, 2, 5, 11, 197297]⟩, ⟨25999, 7, [2, 3, 7, 619]⟩,
  ⟨115747549, 2, [2, 2, 3, 7, 53, 25999]⟩, ⟨457, 13, [2, 2, 2, 3, 19]⟩, ⟨16453, 2, [2, 2, 3, 3, 457]⟩, ⟨164531, 2,
  [2, 5, 16453]⟩, ⟨154330079, 7, [2, 7, 67, 164531]⟩, ⟨281, 3, [2, 2, 2, 5, 7]⟩, ⟨563, 2, [2, 281]⟩, ⟨20269, 2, [2,
  2, 3, 3, 563]⟩, ⟨81077, 2, [2, 2, 20269]⟩, ⟨205773427, 2, [2, 3, 3, 3, 47, 81077]⟩, ⟨293, 2, [2, 2, 73]⟩, ⟨12893,
  3, [2, 2, 11, 293]⟩, ⟨180503, 5, [2, 7, 12893]⟩, ⟨274364561, 15, [2, 2, 2, 2, 5, 19, 180503]⟩, ⟨4861, 11, [2, 2,
  3, 3, 3, 3, 3, 5]⟩, ⟨365819417, 3, [2, 2, 2, 23, 409, 4861]⟩, ⟨199, 3, [2, 3, 3, 11]⟩, ⟨797, 2, [2, 2, 199]⟩,
  ⟨3923, 2, [2, 37, 53]⟩, ⟨101999, 7, [2, 13, 3923]⟩, ⟨487759219, 2, [2, 3, 797, 101999]⟩, ⟨203233, 10, [2, 2, 2, 2,
  2, 3, 29, 73]⟩, ⟨13006913, 3, [2, 2, 2, 2, 2, 2, 203233]⟩, ⟨650345651, 2, [2, 5, 5, 13006913]⟩, ⟨2267, 2, [2, 11,
  103]⟩, ⟨867127501, 6, [2, 2, 3, 3, 5, 5, 5, 5, 17, 2267]⟩, ⟨14221, 2, [2, 2, 3, 3, 5, 79]⟩, ⟨426631, 3, [2, 3, 5,
  14221]⟩, ⟨1156170011, 2, [2, 5, 271, 426631]⟩, ⟨829, 2, [2, 2, 3, 3, 23]⟩, ⟨8291, 2, [2, 5, 829]⟩, ⟨49747, 3, [2,
  3, 8291]⟩, ⟨61, 2, [2, 2, 3, 5]⟩, ⟨1541560037, 2, [2, 2, 61, 127, 49747]⟩, ⟨229, 6, [2, 2, 3, 19]⟩, ⟨701, 2, [2,
  2, 5, 5, 7]⟩, ⟨2055413317, 2, [2, 2, 3, 11, 97, 229, 701]⟩, ⟨4051, 10, [2, 3, 3, 3, 3, 5, 5]⟩, ⟨2819497, 5, [2, 2,
  2, 3, 29, 4051]⟩, ⟨152252839, 3, [2, 3, 3, 3, 2819497]⟩, ⟨2740551103, 3, [2, 3, 3, 152252839]⟩, ⟨487, 3, [2, 3, 3,
  3, 3, 3]⟩, ⟨139, 2, [2, 3, 23]⟩, ⟨3654068141, 2, [2, 2, 5, 139, 487, 2699]⟩, ⟨72469, 6, [2, 2, 3, 3, 3, 11, 61]⟩,
  ⟨4872090871, 3, [2, 3, 3, 3, 3, 5, 83, 72469]⟩, ⟨5839, 6, [2, 3, 7, 139]⟩, ⟨3248060531, 2, [2, 5, 11, 13, 389,
  5839]⟩, ⟨6496121063, 5, [2, 3248060531]⟩, ⟨1061, 2, [2, 2, 5, 53]⟩, ⟨131, 2, [2, 5, 13]⟩, ⟨263, 5, [2, 131]⟩,
  ⟨270671711, 7, [2, 5, 97, 263, 1061]⟩, ⟨8661494753, 3, [2, 2, 2, 2, 2, 270671711]⟩, ⟨3207961, 37, [2, 2, 2, 3, 3,
  5, 7, 19, 67]⟩, ⟨115486597, 2, [2, 2, 3, 3, 3207961]⟩, ⟨11548659701, 2, [2, 2, 5, 5, 115486597]⟩, ⟨3666241, 7, [2,
  2, 2, 2, 2, 2, 3, 3, 5, 19, 67]⟩, ⟨21997447, 19, [2, 3, 3666241]⟩, ⟨15398212901, 3, [2, 2, 5, 5, 7, 21997447]⟩,
  ⟨113, 3, [2, 2, 2, 2, 7]⟩, ⟨227, 2, [2, 113]⟩, ⟨22611179, 2, [2, 19, 53, 103, 109]⟩, ⟨20530950533, 2, [2, 2, 227,
  22611179]⟩, ⟨4621, 2, [2, 2, 3, 5, 7, 11]⟩, ⟨27374600677, 2, [2, 2, 3, 17, 71, 409, 4621]⟩, ⟨36499467569, 3, [2,
  2, 2, 2, 17, 71, 409, 4621]⟩, ⟨223, 3, [2, 3, 37]⟩, ⟨313, 10, [2, 2, 2, 3, 13]⟩, ⟨48665956771, 2, [2, 3, 3, 5, 61,
  127, 223, 313]⟩, ⟨1901, 2, [2, 2, 5, 5, 19]⟩, ⟨251, 6, [2, 5, 5, 5]⟩, ⟨503, 5, [2, 251]⟩, ⟨9562031, 13, [2, 5,
  503, 1901]⟩, ⟨64887942367, 17, [2, 3, 3, 13, 29, 9562031]⟩, ⟨12689, 3, [2, 2, 2, 2, 13, 61]⟩, ⟨3253, 2, [2, 2, 3,
  271]⟩, ⟨86517256433, 3, [2, 2, 2, 2, 131, 3253, 12689]⟩, ⟨107, 2, [2, 53]⟩, ⟨643, 11, [2, 3, 107]⟩, ⟨7717, 2, [2,
  2, 3, 643]⟩, ⟨54157907, 2, [2, 11, 11, 29, 7717]⟩, ⟨115356341911, 6, [2, 3, 5, 71, 54157907]⟩, ⟨3697, 5, [2, 2, 2,
  2, 3, 7, 11]⟩, ⟨39276929, 3, [2, 2, 2, 2, 2, 2, 2, 83, 3697]⟩, ⟨78553859, 2, [2, 39276929]⟩, ⟨153808455923, 2, [2,
  11, 89, 78553859]⟩, ⟨179, 2, [2, 89]⟩, ⟨55849, 14, [2, 2, 2, 3, 13, 179]⟩, ⟨558491, 2, [2, 5, 55849]⟩, ⟨4467929,
  3, [2, 2, 2, 558491]⟩, ⟨2278643791, 6, [2, 3, 5, 17, 4467929]⟩, ⟨205077941191, 6, [2, 3, 3, 5, 2278643791]⟩, ⟨101,
  2, [2, 2, 5, 5]⟩, ⟨809, 3, [2, 2, 2, 101]⟩, ⟨14563, 3, [2, 3, 3, 809]⟩, ⟨7427131, 2, [2, 3, 5, 17, 14563]⟩,
  ⟨273437254897, 5, [2, 2, 2, 2, 3, 13, 59, 7427131]⟩, ⟨364583006561, 3, [2, 2, 2, 2, 2, 5, 2278643791]⟩, ⟨3329, 3,
  [2, 2, 2, 2, 2, 2, 2, 2, 13]⟩, ⟨1278337, 5, [2, 2, 2, 2, 2, 2, 2, 3, 3329]⟩, ⟨23010067, 2, [2, 3, 3, 1278337]⟩,
  ⟨486110675443, 12, [2, 3, 7, 503, 23010067]⟩, ⟨509, 2, [2, 2, 127]⟩, ⟨1019, 2, [2, 509]⟩, ⟨752023, 3, [2, 3, 3,
  41, 1019]⟩, ⟨2746387997, 2, [2, 2, 11, 83, 752023]⟩, ⟨648147567293, 2, [2, 2, 59, 2746387997]⟩, ⟨907, 2, [2, 3,
  151]⟩, ⟨421, 2, [2, 2, 3, 5, 7]⟩, ⟨1380881, 3, [2, 2, 2, 2, 5, 41, 421]⟩, ⟨864196756231, 3, [2, 3, 5, 23, 907,
  1380881]⟩, ⟨1152262341641, 3, [2, 2, 2, 5, 23, 907, 1380881]⟩, ⟨937, 5, [2, 2, 2, 3, 3, 13]⟩, ⟨1628507, 2, [2, 11,
  79, 937]⟩, ⟨1536349788871, 6, [2, 3, 5, 13, 41, 59, 1628507]⟩, ⟨19699, 7, [2, 3, 7, 7, 67]⟩, ⟨2797259, 2, [2, 71,
  19699]⟩, ⟨39161627, 2, [2, 7, 2797259]⟩, ⟨1453, 2, [2, 2, 3, 11, 11]⟩, ⟨341411064187, 2, [2, 3, 1453, 39161627]⟩,
  ⟨2048466385123, 3, [2, 3, 341411064187]⟩, ⟨106751, 13, [2, 5, 5, 5, 7, 61]⟩, ⟨21350201, 3, [2, 2, 2, 5, 5,
  106751]⟩, ⟨15991, 12, [2, 3, 5, 13, 41]⟩, ⟨2731288513529, 3, [2, 2, 2, 15991, 21350201]⟩, ⟨114913, 5, [2, 2, 2, 2,
  2, 3, 3, 3, 7, 19]⟩, ⟨161337853, 2, [2, 2, 3, 3, 3, 13, 114913]⟩, ⟨55177545727, 5, [2, 3, 3, 19, 161337853]⟩,
  ⟨3641718017983, 6, [2, 3, 11, 55177545727]⟩, ⟨1667, 2, [2, 7, 7, 17]⟩, ⟨691, 3, [2, 3, 5, 23]⟩, ⟨149, 2, [2, 2,
  37]⟩, ⟨10133, 2, [2, 2, 17, 149]⟩, ⟨14003807, 5, [2, 691, 10133]⟩, ⟨4855624023953, 5, [2, 2, 2, 2, 13, 1667,
  14003807]⟩, ⟨63281, 6, [2, 2, 2, 2, 5, 7, 113]⟩, ⟨2404679, 7, [2, 19, 63281]⟩, ⟨539513780441, 3, [2, 2, 2, 5, 71,
  79, 2404679]⟩, ⟨6474165365293, 2, [2, 2, 3, 539513780441]⟩, ⟨173, 2, [2, 2, 43]⟩, ⟨1427, 2, [2, 23, 31]⟩,
  ⟨3193627, 2, [2, 3, 373, 1427]⟩, ⟨69614681347, 7, [2, 3, 3, 7, 173, 3193627]⟩, ⟨8632220487029, 2, [2, 2, 31,
  69614681347]⟩, ⟨1571, 2, [2, 5, 157]⟩, ⟨571, 3, [2, 3, 5, 19]⟩, ⟨1794083, 2, [2, 571, 1571]⟩, ⟨239, 7, [2, 7,
  17]⟩, ⟨479, 13, [2, 239]⟩, ⟨11497, 7, [2, 2, 2, 3, 479]⟩, ⟨11509627316059, 2, [2, 3, 3, 31, 11497, 1794083]⟩,
  ⟨31237, 6, [2, 2, 3, 19, 137]⟩, ⟨187423, 5, [2, 3, 31237]⟩, ⟨1607, 5, [2, 11, 73]⟩, ⟨3614265133, 2, [2, 2, 3,
  1607, 187423]⟩, ⟨15346169754719, 11, [2, 11, 193, 3614265133]⟩, ⟨37549, 2, [2, 2, 3, 3, 7, 149]⟩, ⟨9007, 3, [2, 3,
  19, 79]⟩, ⟨90071, 7, [2, 5, 9007]⟩, ⟨20461559672951, 11, [2, 5, 5, 11, 11, 37549, 90071]⟩, ⟨3617, 3, [2, 2, 2, 2,
  2, 113]⟩, ⟨5490607, 3, [2, 3, 11, 23, 3617]⟩, ⟨263549137, 5, [2, 2, 2, 2, 3, 5490607]⟩, ⟨27282079563967, 3, [2, 3,
  3, 3, 3, 3, 3, 71, 263549137]⟩, ⟨283, 3, [2, 3, 47]⟩, ⟨6133, 5, [2, 2, 3, 7, 73]⟩, ⟨48597893, 2, [2, 2, 7, 283,
  6133]⟩, ⟨6062684347537, 7, [2, 2, 2, 2, 3, 23, 113, 48597893]⟩, ⟨36376106085223, 3, [2, 3, 6062684347537]⟩, ⟨167,
  5, [2, 83]⟩, ⟨128257, 5, [2, 2, 2, 2, 2, 2, 2, 2, 3, 167]⟩, ⟨769543, 3, [2, 3, 128257]⟩, ⟨9234517, 2, [2, 2, 3,
  769543]⟩, ⟨4129, 13, [2, 2, 2, 2, 2, 3, 43]⟩, ⟨49549, 6, [2, 2, 3, 4129]⟩, ⟨48501474780299, 2, [2, 53, 49549,
  9234517]⟩, ⟨1163, 5, [2, 7, 83]⟩, ⟨14669, 2, [2, 2, 19, 193]⟩, ⟨16339, 2, [2, 3, 7, 389]⟩, ⟨64668633040457, 3, [2,
  2, 2, 29, 1163, 14669, 16339]⟩, ⟨7829, 2, [2, 2, 19, 103]⟩, ⟨93949, 2, [2, 2, 3, 7829]⟩, ⟨646557019, 3, [2, 3, 31,
  37, 93949]⟩, ⟨21556211013461, 2, [2, 2, 5, 1667, 646557019]⟩, ⟨43112422026923, 2, [2, 21556211013461]⟩,
  ⟨86224844053847, 5, [2, 43112422026923]⟩, ⟨1723, 3, [2, 3, 7, 41]⟩, ⟨17231, 13, [2, 5, 1723]⟩, ⟨137849, 3, [2, 2,
  2, 17231]⟩, ⟨275699, 2, [2, 137849]⟩, ⟨191, 19, [2, 5, 19]⟩, ⟨73727, 5, [2, 191, 193]⟩, ⟨114966458738489, 3, [2,
  2, 2, 7, 101, 73727, 275699]⟩, ⟨3793, 5, [2, 2, 2, 2, 3, 79]⟩, ⟨15173, 2, [2, 2, 3793]⟩, ⟨212423, 5, [2, 7,
  15173]⟩, ⟨53530597, 6, [2, 2, 3, 3, 7, 212423]⟩, ⟨233, 3, [2, 2, 2, 29]⟩, ⟨307, 5, [2, 3, 3, 17]⟩, ⟨1229, 2, [2,
  2, 307]⟩, ⟨153288611651291, 2, [2, 5, 233, 1229, 53530597]⟩, ⟨45667, 2, [2, 3, 3, 43, 59]⟩, ⟨413713, 5, [2, 2, 2,
  2, 3, 3, 13, 13, 17]⟩, ⟨601, 7, [2, 2, 2, 3, 5, 5]⟩, ⟨204384815535079, 3, [2, 3, 3, 601, 45667, 413713]⟩, ⟨2437,
  2, [2, 2, 3, 7, 29]⟩, ⟨24371, 2, [2, 5, 2437]⟩, ⟨5166653, 2, [2, 2, 53, 24371]⟩, ⟨1374329699, 2, [2, 7, 19,
  5166653]⟩, ⟨10994637593, 3, [2, 2, 2, 1374329699]⟩, ⟨272513087380099, 2, [2, 3, 3, 3, 3, 3, 3, 17, 10994637593]⟩]

theorem sizeCerts_check : Pratt.checkAll [2] sizeCerts = true := by decide +kernel

theorem sizeCerts_cover : (Build.b64.tableSizes.all (fun s => (sizeCerts.map Pratt.Cert.p).elem s)) = true := by
  decide +kernel

theorem tableSizes_sub (b : Build) {s : Nat} (h : s ∈ b.tableSizes) : s ∈ Build.b64.tableSizes := by
  cases b with
  | b64 => exact h
  | b32 => exact List.mem_append_left _ h

theorem prime_of_mem_tableSizes {b : Build} {s : Nat} (h : s ∈ b.tableSizes) : s.Prime := by
  have hc := List.all_eq_true.1 sizeCerts_cover s (tableSizes_sub b h)
  rw [List.elem_eq_mem, decide_eq_true_eq, List.mem_map] at hc
  obtain ⟨c, hc, rfl⟩ := hc
  exact Pratt.prime_of_checkAll sizeCerts [2] (fun q hq => by
    rw [List.mem_singleton.1 hq]; exact Nat.prime_two) sizeCerts_check c hc

/-! ## The binary search finds the smallest size that is large enough -/

theorem tableSizesLarge_sorted : (tableSizesCommon ++ tableSizesLarge).Pairwise (· ≤ ·) := by decide +kernel

theorem tableSizes_sorted (b : Build) : b.tableSizes.Pairwise (· ≤ ·) := by
  cases b with
  | b64 => exact tableSizesLarge_sorted
  | b32 => exact tableSizesLarge_sorted.sublist (List.sublist_append_left _ _)

/-- What the bounds of the search have established: everything below `lower` is too small, everything above `upper`
is large enough. -/
structure SizeBounds (sizes : List Nat) (size : Nat) (lower upper : Int) : Prop where
  lower_nonneg : 0 ≤ lower
  lower_le : lower ≤ upper + 1
  upper_lt : upper < sizes.length
  small : ∀ i : Nat, (i : Int) < lower → sizes.getD i 0 < size
  large : ∀ i : Nat, upper < i → i < sizes.length → size ≤ sizes.getD i 0

theorem getD_le_of_sorted {sizes : List Nat} (hs : sizes.Pairwise (· ≤ ·)) {i j : Nat} (hij : i ≤ j) (hj : j < sizes.length) :
    sizes.getD i 0 ≤ sizes.getD j 0 := by
  rw [List.getD_eq_getElem _ _ hj, List.getD_eq_getElem _ _ (Nat.lt_of_le_of_lt hij hj)]
  rcases Nat.eq_or_lt_of_le hij with rfl | hlt
  · exact le_refl _
  · exact List.pairwise_iff_getElem.1 hs i j _ hj hlt

/-- **The search ends with adjacent bounds**, given fuel for the window it starts with. -/
theorem sizeLoop_bounds {sizes : List Nat} (hs : sizes.Pairwise (· ≤ ·)) (size : Nat) : ∀ (fuel : Nat) (lower upper : Int),
    SizeBounds sizes size lower upper → upper + 1 - lower < fuel →
    SizeBounds sizes size (sizeLoop sizes size fuel lower upper) (sizeLoop sizes size fuel lower upper - 1)
  | 0, lower, upper, h, hf => by
    have := h.lower_le
    exact absurd hf (by simp only [Nat.cast_zero]; omega)
  | fuel + 1, lower, upper, h, hf => by
    have hlen := h.upper_lt
    have hnn := h.lower_nonneg
    unfold sizeLoop
    split
    · rename_i hle
      have hm1 : lower ≤ (lower + upper) / 2 := by omega
      have hm2 : (lower + upper) / 2 ≤ upper := by omega
      dsimp only
      split
      · rename_i hsmall
        refine sizeLoop_bounds hs size fuel _ _ ⟨by omega, by omega, hlen, fun i hi => ?_, h.large⟩ (by omega)
        exact Nat.lt_of_le_of_lt (getD_le_of_sorted hs (by omega) (by omega)) hsmall
      · rename_i hlarge
        refine sizeLoop_bounds hs size fuel _ _ ⟨hnn, by omega, by omega, h.small, fun i hi hil => ?_⟩ (by omega)
        exact Nat.le_trans (Nat.le_of_not_lt hlarge) (getD_le_of_sorted hs (by omega) hil)
    · rename_i hgt
      have hle := h.lower_le
      obtain rfl : lower = upper + 1 := by omega
      rw [Int.add_sub_cancel]
      exact h

theorem sizeLoop_search {sizes : List Nat} (hs : sizes.Pairwise (· ≤ ·)) (hpos : 0 < sizes.length) (size : Nat) :
    let lower := sizeLoop sizes size (sizes.length + 1) 0 (sizes.length - 1)
    SizeBounds sizes size lower (lower - 1) :=
  sizeLoop_bounds hs size _ 0 _ ⟨le_refl _, by omega, by omega, fun i hi => by omega, fun i hi hil => by omega⟩ (by omega)

/-- **`lws_table_size` returns the smallest listed size not below its argument, and fails exactly when there is none.** -/
theorem tableSize_spec (b : Build) (size : Nat) :
    match tableSize b size with
    | none => ∀ s ∈ b.tableSizes, s < size
    | some s => s ∈ b.tableSizes ∧ size ≤ s ∧ ∀ s' ∈ b.tableSizes, size ≤ s' → s ≤ s' := by
  have hpos : 0 < b.tableSizes.length := by cases b <;> decide
  have h := sizeLoop_search (tableSizes_sorted b) hpos size
  unfold tableSize
  dsimp only at h ⊢
  generalize sizeLoop b.tableSizes size (b.tableSizes.length + 1) 0 (b.tableSizes.length - 1) = lower at h
  have hnn := h.lower_nonneg
  by_cases hge : lower ≥ b.tableSizes.length
  · rw [if_pos hge]
    intro s hs
    obtain ⟨i, hi, rfl⟩ := List.getElem_of_mem hs
    have := h.small i (by omega)
    rwa [List.getD_eq_getElem _ _ hi] at this
  · rw [if_neg hge]
    have hlt : lower.toNat < b.tableSizes.length := by omega
    refine ⟨?_, h.large _ (by omega) hlt, fun s' hs' hle => ?_⟩
    · rw [List.getD_eq_getElem _ _ hlt]
      exact List.getElem_mem hlt
    · obtain ⟨i, hi, rfl⟩ := List.getElem_of_mem hs'
      rw [← List.getD_eq_getElem _ 0 hi] at hle ⊢
      refine getD_le_of_sorted (tableSizes_sorted b) ?_ hi
      by_contra hlow
      have := h.small i (by omega)
      omega

theorem tableSize_mem {b : Build} {size s : Nat} (h : tableSize b size = some s) : s ∈ b.tableSizes ∧ size ≤ s := by
  have := tableSize_spec b size
  rw [h] at this
  exact ⟨this.1, this.2.1⟩

def lastSize (b : Build) : Nat := b.tableSizes.getLastD 0

theorem lastSize_mem (b : Build) : lastSize b ∈ b.tableSizes := by
  cases b with
  | b64 => decide +kernel
  | b32 => decide +kernel

theorem le_lastSize {b : Build} {s : Nat} (h : s ∈ b.tableSizes) : s ≤ lastSize b := by
  have hne : b.tableSizes ≠ [] := List.ne_nil_of_mem h
  rw [lastSize, List.getLastD_eq_getLast?, List.getLast?_eq_some_getLast hne, Option.getD_some]
  exact (tableSizes_sorted b).rel_getLast h

theorem tableSize_isSome {b : Build} {size : Nat} : (tableSize b size).isSome = true ↔ size ≤ lastSize b := by
  have hspec := tableSize_spec b size
  cases h : tableSize b size with
  | none =>
    rw [h] at hspec
    have hlast := hspec _ (lastSize_mem b)
    exact ⟨fun hn => (nomatch hn), fun hle => absurd hle (Nat.not_le.2 hlast)⟩
  | some s =>
    rw [h] at hspec
    exact ⟨fun _ => Nat.le_trans hspec.2.1 (le_lastSize hspec.1), fun _ => rfl⟩

theorem three_le_of_mem_tableSizes {b : Build} {s : Nat} (h : s ∈ b.tableSizes) : 3 ≤ s := by
  have h3 : ∀ s ∈ Build.b64.tableSizes, 3 ≤ s := by decide +kernel
  exact h3 s (tableSizes_sub b h)

theorem tableLoad_eq (alloc : Nat) : tableLoad alloc = alloc / 2 + alloc / 4 + alloc / 8 := by
  simp only [tableLoad, Nat.shiftRight_eq_div_pow]

theorem tableLoad_lt {alloc : Nat} (h : 0 < alloc) : tableLoad alloc < alloc := by
  rw [tableLoad_eq]; omega

theorem tableLoad_mono {a c : Nat} (h : a ≤ c) : tableLoad a ≤ tableLoad c := by
  rw [tableLoad_eq, tableLoad_eq]; omega

end Lws
