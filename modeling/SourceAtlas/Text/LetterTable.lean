import SourceAtlas.Text.Ranges

/-!
# Tables of letter properties

The characters, from U+0080 on, that have a property which Unicode 14.0 assigns. Where one property
mostly goes with another, the table has only the difference, and it may also have characters that
are settled before it is asked. The functions on characters are in `SourceAtlas.Text.Letter`.
-/

set_option autoImplicit false

namespace SourceAtlas.Text.LetterTable

/-- Letters. -/
def alpha : RangeTable := .ofRows [
  0xD21921415A71B71F924949657111A8151224116113111A419A31A9390AC61C6216D1987B344D5D3C3219C3119727292321A011B6B59B1931,
  0xB0C1912415A64191131A7B17935B016A1D2F2E631A2179297A0490222A617113431A0195213962921906422A617121212B7411A33A091131,
  0xA617121531A21972A719390222A617121531B6213971A111633143211123233394A61E490131A71A031B232122B61490131A71921531B721,
  0x2972A191131D121A0153903B065A23B01911127F2E012947F2211151B011192129112511A54C01F7901C4B359E3D3A41A064431327349594,
  0x1A1C611512D31D95142711142D1142C1142711142971F1142983C5A0A09A626399D42A11B259936907A295A396A296951397E4C3141983,
  0x9B1752C211598692B7E1B62593D44B2E6A791E59A219B5D7A190E6B695292D4B2C4D1392C42917D323D141612315B80980CA6262C6262901,
  0x111111B72E517113317342649553179E41951A0959C5141292113561111114193245541E42D9F3BC5643294C611512F071A0A79171717171,
  0x71717179A01FA52D255249A66319B2145D319B6A1C0E0A098809CF80980DBA95983D62C953A0922A4D7A0B72986E19129C72980521115B0,
  0xA013141A7B5E496E2F66311293B492A7B1B57D7B41A051929251D1A73190A4A7313E21132252111B03293739462626917171D319669E3B5,
  0xADEC494A74E1A8C84DD629D2C67945511921951511121219D4C1DD3A29802E6D0949E451A87C4B26B2939B136262623C3941B21A3121972,
  0x96C29F3E85B53E1D7C095A41906C692B62C4490E0AB6A2C44C44D090E4949319717121931971712983CE791A69290B061D21919856211D41,
  0x2312A792A791B7981A31292A692B2986F0629801974131B5D2B53B5C3901B4B3E692A692A395A29D6991E7E395E395C4DB4D262996B5921,
  0x90A6D2A2D6A5B3A794E5F122195D5C0B1B2C4B512190C33194E0964A5111C3A21B19A4711141971927D7C690222A617121531A21945AB6E5,
  0xA24A43B6E0A4211AF0D7D14C4E0A41F3D3951987B3C57AF1D49E4980B79021290121B0971119B6902C7A0111B4192D071A5193D6A31A2991,
  0xC87911C5A11E1B69E07121C6A51B16121C0961D87A3AF519979EB2BC6B84D9949C197A8D7FFA19987A8EF198F17B7A1997A1B6A2E0A04B7,
  0xA55A39AE0980A809935198295980211B49BFF090ABA6D291A9BC7417121CC3D53A1490E94CC849D35953917929BDC69A5198712212224194,
  0x1117198114290171B4141511371DA42B11B11B71B11B71B11B71B11B71B1190BCE4B7FC1D5927A01D81B6A2D4ABE4714121971B85F398471,
  0xAAE441B3121121192141111614111111312112111111111121124171414111921A153151A198D849ABBC0C0988F17BB629BA82969ECE1,
  0xE8B798B6AFC299D93]

/-- Numbers other than decimal digits. -/
def numeric : RangeTable := .ofRows [
  0xE225123CCE56DF069F03A857BB17A191EE192A8E5A49DE13BF792FC01BAA5136692B86F29BA6F4996A699E6B6ADD119C911B191963DA74,
  0xA9292B690197C092C797FA8C692D806DCBA1D594F1A12DA5B3C44B592A865AA8290B17C791993C1AC0A42D698091E42B6399359D090B0,
  0x90D17D926DC0B7AB692D249E07A86A4DF3A4AD852ED6919DC7A39DA3A5A8D39D7CBBD479CB6A7EA991A49D4B19AD96919EC1F31314994D,
  0x51979F8295]

/-- Decimal digits, in runs of ten that start at the digit zero. -/
def decimal : RangeTable := .ofRows [
  0xAFC092A8692B8692EB4929E6929E6929E6929E6929E6929E6929E6929E6929E6929C0929E69298692CA69298692BD8692C692CD492A8092,
  0xAC692692AE6929A692A869269298CF86929AC692C692B8692A6929A692EA692D9CA692AE8692CA86929CD492A8092F492AA092CA692DA692,
  0x9E692DE6929C6929C692EC6929C6929BE692BE69298692CEAE6929A692A8692EE9E4E2CD8092EC692B9A69299AA692]

/-- Characters that have the property Uppercase or a lower-case form, but not both. -/
def upperOdd : RangeTable := .ofRows [
  0xD8512121C61FB739DEE39090909090941971D71C8514133232135613132221192251BB9AF2B2B2B2B2B2B2112212224190B2B2B2214290,
  0x17B3214151137B3B2B2B2B2B2B2B2B2B2B2B2B6B1C1B1C1B1C1B1C1B1C119CDC5B26B26B2]

/-- Characters that change in upper case without the property Uppercase or are a lower-case form, but
not both. -/
def lowerOdd : RangeTable := .ofRows [
  0xE519F31A71E5198512121C4111DA219921B71A1195232B1231EA119BBF09198956AE41111111E190909090902111124111311112415222,
  0x923129211112419DDC837945]

/-- Letters that do not begin an identifier, and other characters that do. -/
def identifierOdd : RangeTable := .ofRows [
  0x9BF21DAF019F71C8F23EA42CAA11A51E1C324EAC61FA71B191963FBAD392DADD66EA629E4111111111111111CB72EC0E5F941901A865,
  0xA88D29D7]

/-- Characters other than decimal digits that may stand in an identifier but do not begin one. -/
def identifierOther : RangeTable := .ofRows [
  0xE7199909E0A71BF35C91D51112121199093E0A5A019C5729214C3F29B393F291911B0B0D33F49921A81B53F0912223911922B2123F0115,
  0x422331B66933F0921313A42A6613F091222373922B61F353314911D05E791131472932B53F091131472932B44E7921314911922B539861,
  0x4611190A22F59294909C2949369922B31111142E1A41A21C49119C4A4A79909AF7391919EC04B43B52B62980C0911D5311AB119E694494,
  0xAB61F45F1921B521E0961A0E1985C691949E4E0A4AB031C6B8698098F72A319F39541394DFF63A9519C0C098D269D12FAFA41492C09A4C,
  0xA0C6419A3986B2A295D7B195D4981C41983969493D5987D1552BD49012CFCE019BC1A0A0A032B03BD719B6299B51BC21AA55BA8631254,
  0xD0341AC5298F54E832AB193E149F2987D1592F471F5E5A02D4194981904129B49461AC094A54E79222239119222735B80A2A719A1A4BD3,
  0x7291B329A2A19D2959C597C8097BE5612291A9572731B4F690191991EA5901909A2A61969F26311219198251215DB34CDFF15F37A8B0F1,
  0x749A11932CEAD32999C1D62A798B6536909027B64AA43BEF3E74E2901961A65197ADA071A1271215C857DE71F54AFC079D57B89BEE5BE0]

/-- Characters with a visible form that do not stand in identifiers. -/
def sign : RangeTable := .ofRows [
  0xC19419B9045529E0AA4BA0E123D691D42A1A61AF091E0BD0442E097B71D11BB395A81949F019F129F6909F0939F496B921907A1929F219,
  0x92B5AC5F59871F0971959D79A69B3199C4B5A3929C699D7D4299639872AB590A492693CE5132AB0C2B62A8096A01AB3C59F54F35F62980,
  0x909319BD1593395A3952A1B090D7A113B3A1C1B490B3A9449AA7B193A5BCA42C01DA49679E01A979B6C2B219B194BA6B2945F79B39C1AA,
  0x49A4B4B719DFC0DBAA0E7E7CA29C0A9090A93AB54492F249A62D0F0D719C195A029F4B69C4A49D1A19F71CFCF51A90A1AB3BE29F71D2C0,
  0xA6C31A31445191A829C59F2717952C8234D539B019531D7D5BC4B3C449F31E01EB619BC7D1C791993C131B719F4A42D698091791C4C3D0,
  0x1C2949827B090B090B14947D926DC0B7D619D792D291D44F379F374A49A52149F64E02997B31A498369D31EC1A1119D01BF2A79D13B495,
  0x9941A806BF31AD6919A13AB319B4909A391EB65A4A3329A852B87E2951A9E05DDF42BD9F32A85198197A579CB6B3D871CEAF1499AE09E4,
  0xF4BE692C72984A69D0A5986AB2A4949A791B19D90C83F49A94BB831ED71AF8791A9629CA1984994F5EE22C96D449C494972971971C592A,
  0xD6F0B595D449172966AB29FB05A039539E4949B17944197944F090926D090B622996DA4949625353791B539356929269090791AA31E7]

end SourceAtlas.Text.LetterTable
