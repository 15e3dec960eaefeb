/-
# The CRC-32C

Three implementations of `common/crc32c.c`: `crc32c_partial_four_tables`, and for processors that
have the instruction `crc32`, `crc32c_partial_sse42` and `crc32c_partial_sse42_clmul`.  The last one
goes through long strings in three streams at once and joins them with carry-less products.

The instruction adds the bits of its operand to the remainder one by one.
* `crc32c_implementations_agree`: the three give the same value.
-/
import MtprotoProxy.CrcTables
import MtprotoProxy.SseWords

namespace MtprotoProxy

open CLib

/-! ## The tables -/

/-- `crc32c_table`. -/
def crc32cTable : Array (BitVec 32) := #[
  0x00000000, 0xf26b8303, 0xe13b70f7, 0x1350f3f4, 0xc79a971f, 0x35f1141c, 0x26a1e7e8, 0xd4ca64eb,
  0x8ad958cf, 0x78b2dbcc, 0x6be22838, 0x9989ab3b, 0x4d43cfd0, 0xbf284cd3, 0xac78bf27, 0x5e133c24,
  0x105ec76f, 0xe235446c, 0xf165b798, 0x030e349b, 0xd7c45070, 0x25afd373, 0x36ff2087, 0xc494a384,
  0x9a879fa0, 0x68ec1ca3, 0x7bbcef57, 0x89d76c54, 0x5d1d08bf, 0xaf768bbc, 0xbc267848, 0x4e4dfb4b,
  0x20bd8ede, 0xd2d60ddd, 0xc186fe29, 0x33ed7d2a, 0xe72719c1, 0x154c9ac2, 0x061c6936, 0xf477ea35,
  0xaa64d611, 0x580f5512, 0x4b5fa6e6, 0xb93425e5, 0x6dfe410e, 0x9f95c20d, 0x8cc531f9, 0x7eaeb2fa,
  0x30e349b1, 0xc288cab2, 0xd1d83946, 0x23b3ba45, 0xf779deae, 0x05125dad, 0x1642ae59, 0xe4292d5a,
  0xba3a117e, 0x4851927d, 0x5b016189, 0xa96ae28a, 0x7da08661, 0x8fcb0562, 0x9c9bf696, 0x6ef07595,
  0x417b1dbc, 0xb3109ebf, 0xa0406d4b, 0x522bee48, 0x86e18aa3, 0x748a09a0, 0x67dafa54, 0x95b17957,
  0xcba24573, 0x39c9c670, 0x2a993584, 0xd8f2b687, 0x0c38d26c, 0xfe53516f, 0xed03a29b, 0x1f682198,
  0x5125dad3, 0xa34e59d0, 0xb01eaa24, 0x42752927, 0x96bf4dcc, 0x64d4cecf, 0x77843d3b, 0x85efbe38,
  0xdbfc821c, 0x2997011f, 0x3ac7f2eb, 0xc8ac71e8, 0x1c661503, 0xee0d9600, 0xfd5d65f4, 0x0f36e6f7,
  0x61c69362, 0x93ad1061, 0x80fde395, 0x72966096, 0xa65c047d, 0x5437877e, 0x4767748a, 0xb50cf789,
  0xeb1fcbad, 0x197448ae, 0x0a24bb5a, 0xf84f3859, 0x2c855cb2, 0xdeeedfb1, 0xcdbe2c45, 0x3fd5af46,
  0x7198540d, 0x83f3d70e, 0x90a324fa, 0x62c8a7f9, 0xb602c312, 0x44694011, 0x5739b3e5, 0xa55230e6,
  0xfb410cc2, 0x092a8fc1, 0x1a7a7c35, 0xe811ff36, 0x3cdb9bdd, 0xceb018de, 0xdde0eb2a, 0x2f8b6829,
  0x82f63b78, 0x709db87b, 0x63cd4b8f, 0x91a6c88c, 0x456cac67, 0xb7072f64, 0xa457dc90, 0x563c5f93,
  0x082f63b7, 0xfa44e0b4, 0xe9141340, 0x1b7f9043, 0xcfb5f4a8, 0x3dde77ab, 0x2e8e845f, 0xdce5075c,
  0x92a8fc17, 0x60c37f14, 0x73938ce0, 0x81f80fe3, 0x55326b08, 0xa759e80b, 0xb4091bff, 0x466298fc,
  0x1871a4d8, 0xea1a27db, 0xf94ad42f, 0x0b21572c, 0xdfeb33c7, 0x2d80b0c4, 0x3ed04330, 0xccbbc033,
  0xa24bb5a6, 0x502036a5, 0x4370c551, 0xb11b4652, 0x65d122b9, 0x97baa1ba, 0x84ea524e, 0x7681d14d,
  0x2892ed69, 0xdaf96e6a, 0xc9a99d9e, 0x3bc21e9d, 0xef087a76, 0x1d63f975, 0x0e330a81, 0xfc588982,
  0xb21572c9, 0x407ef1ca, 0x532e023e, 0xa145813d, 0x758fe5d6, 0x87e466d5, 0x94b49521, 0x66df1622,
  0x38cc2a06, 0xcaa7a905, 0xd9f75af1, 0x2b9cd9f2, 0xff56bd19, 0x0d3d3e1a, 0x1e6dcdee, 0xec064eed,
  0xc38d26c4, 0x31e6a5c7, 0x22b65633, 0xd0ddd530, 0x0417b1db, 0xf67c32d8, 0xe52cc12c, 0x1747422f,
  0x49547e0b, 0xbb3ffd08, 0xa86f0efc, 0x5a048dff, 0x8ecee914, 0x7ca56a17, 0x6ff599e3, 0x9d9e1ae0,
  0xd3d3e1ab, 0x21b862a8, 0x32e8915c, 0xc083125f, 0x144976b4, 0xe622f5b7, 0xf5720643, 0x07198540,
  0x590ab964, 0xab613a67, 0xb831c993, 0x4a5a4a90, 0x9e902e7b, 0x6cfbad78, 0x7fab5e8c, 0x8dc0dd8f,
  0xe330a81a, 0x115b2b19, 0x020bd8ed, 0xf0605bee, 0x24aa3f05, 0xd6c1bc06, 0xc5914ff2, 0x37faccf1,
  0x69e9f0d5, 0x9b8273d6, 0x88d28022, 0x7ab90321, 0xae7367ca, 0x5c18e4c9, 0x4f48173d, 0xbd23943e,
  0xf36e6f75, 0x0105ec76, 0x12551f82, 0xe03e9c81, 0x34f4f86a, 0xc69f7b69, 0xd5cf889d, 0x27a40b9e,
  0x79b737ba, 0x8bdcb4b9, 0x988c474d, 0x6ae7c44e, 0xbe2da0a5, 0x4c4623a6, 0x5f16d052, 0xad7d5351]

def crc32cTable0 : Array (BitVec 32) := #[
  0x00000000, 0xdd45aab8, 0xbf672381, 0x62228939, 0x7b2231f3, 0xa6679b4b, 0xc4451272, 0x1900b8ca,
  0xf64463e6, 0x2b01c95e, 0x49234067, 0x9466eadf, 0x8d665215, 0x5023f8ad, 0x32017194, 0xef44db2c,
  0xe964b13d, 0x34211b85, 0x560392bc, 0x8b463804, 0x924680ce, 0x4f032a76, 0x2d21a34f, 0xf06409f7,
  0x1f20d2db, 0xc2657863, 0xa047f15a, 0x7d025be2, 0x6402e328, 0xb9474990, 0xdb65c0a9, 0x06206a11,
  0xd725148b, 0x0a60be33, 0x6842370a, 0xb5079db2, 0xac072578, 0x71428fc0, 0x136006f9, 0xce25ac41,
  0x2161776d, 0xfc24ddd5, 0x9e0654ec, 0x4343fe54, 0x5a43469e, 0x8706ec26, 0xe524651f, 0x3861cfa7,
  0x3e41a5b6, 0xe3040f0e, 0x81268637, 0x5c632c8f, 0x45639445, 0x98263efd, 0xfa04b7c4, 0x27411d7c,
  0xc805c650, 0x15406ce8, 0x7762e5d1, 0xaa274f69, 0xb327f7a3, 0x6e625d1b, 0x0c40d422, 0xd1057e9a,
  0xaba65fe7, 0x76e3f55f, 0x14c17c66, 0xc984d6de, 0xd0846e14, 0x0dc1c4ac, 0x6fe34d95, 0xb2a6e72d,
  0x5de23c01, 0x80a796b9, 0xe2851f80, 0x3fc0b538, 0x26c00df2, 0xfb85a74a, 0x99a72e73, 0x44e284cb,
  0x42c2eeda, 0x9f874462, 0xfda5cd5b, 0x20e067e3, 0x39e0df29, 0xe4a57591, 0x8687fca8, 0x5bc25610,
  0xb4868d3c, 0x69c32784, 0x0be1aebd, 0xd6a40405, 0xcfa4bccf, 0x12e11677, 0x70c39f4e, 0xad8635f6,
  0x7c834b6c, 0xa1c6e1d4, 0xc3e468ed, 0x1ea1c255, 0x07a17a9f, 0xdae4d027, 0xb8c6591e, 0x6583f3a6,
  0x8ac7288a, 0x57828232, 0x35a00b0b, 0xe8e5a1b3, 0xf1e51979, 0x2ca0b3c1, 0x4e823af8, 0x93c79040,
  0x95e7fa51, 0x48a250e9, 0x2a80d9d0, 0xf7c57368, 0xeec5cba2, 0x3380611a, 0x51a2e823, 0x8ce7429b,
  0x63a399b7, 0xbee6330f, 0xdcc4ba36, 0x0181108e, 0x1881a844, 0xc5c402fc, 0xa7e68bc5, 0x7aa3217d,
  0x52a0c93f, 0x8fe56387, 0xedc7eabe, 0x30824006, 0x2982f8cc, 0xf4c75274, 0x96e5db4d, 0x4ba071f5,
  0xa4e4aad9, 0x79a10061, 0x1b838958, 0xc6c623e0, 0xdfc69b2a, 0x02833192, 0x60a1b8ab, 0xbde41213,
  0xbbc47802, 0x6681d2ba, 0x04a35b83, 0xd9e6f13b, 0xc0e649f1, 0x1da3e349, 0x7f816a70, 0xa2c4c0c8,
  0x4d801be4, 0x90c5b15c, 0xf2e73865, 0x2fa292dd, 0x36a22a17, 0xebe780af, 0x89c50996, 0x5480a32e,
  0x8585ddb4, 0x58c0770c, 0x3ae2fe35, 0xe7a7548d, 0xfea7ec47, 0x23e246ff, 0x41c0cfc6, 0x9c85657e,
  0x73c1be52, 0xae8414ea, 0xcca69dd3, 0x11e3376b, 0x08e38fa1, 0xd5a62519, 0xb784ac20, 0x6ac10698,
  0x6ce16c89, 0xb1a4c631, 0xd3864f08, 0x0ec3e5b0, 0x17c35d7a, 0xca86f7c2, 0xa8a47efb, 0x75e1d443,
  0x9aa50f6f, 0x47e0a5d7, 0x25c22cee, 0xf8878656, 0xe1873e9c, 0x3cc29424, 0x5ee01d1d, 0x83a5b7a5,
  0xf90696d8, 0x24433c60, 0x4661b559, 0x9b241fe1, 0x8224a72b, 0x5f610d93, 0x3d4384aa, 0xe0062e12,
  0x0f42f53e, 0xd2075f86, 0xb025d6bf, 0x6d607c07, 0x7460c4cd, 0xa9256e75, 0xcb07e74c, 0x16424df4,
  0x106227e5, 0xcd278d5d, 0xaf050464, 0x7240aedc, 0x6b401616, 0xb605bcae, 0xd4273597, 0x09629f2f,
  0xe6264403, 0x3b63eebb, 0x59416782, 0x8404cd3a, 0x9d0475f0, 0x4041df48, 0x22635671, 0xff26fcc9,
  0x2e238253, 0xf36628eb, 0x9144a1d2, 0x4c010b6a, 0x5501b3a0, 0x88441918, 0xea669021, 0x37233a99,
  0xd867e1b5, 0x05224b0d, 0x6700c234, 0xba45688c, 0xa345d046, 0x7e007afe, 0x1c22f3c7, 0xc167597f,
  0xc747336e, 0x1a0299d6, 0x782010ef, 0xa565ba57, 0xbc65029d, 0x6120a825, 0x0302211c, 0xde478ba4,
  0x31035088, 0xec46fa30, 0x8e647309, 0x5321d9b1, 0x4a21617b, 0x9764cbc3, 0xf54642fa, 0x2803e842]

def crc32cTable1 : Array (BitVec 32) := #[
  0x00000000, 0xa541927e, 0x4f6f520d, 0xea2ec073, 0x9edea41a, 0x3b9f3664, 0xd1b1f617, 0x74f06469,
  0x38513ec5, 0x9d10acbb, 0x773e6cc8, 0xd27ffeb6, 0xa68f9adf, 0x03ce08a1, 0xe9e0c8d2, 0x4ca15aac,
  0x70a27d8a, 0xd5e3eff4, 0x3fcd2f87, 0x9a8cbdf9, 0xee7cd990, 0x4b3d4bee, 0xa1138b9d, 0x045219e3,
  0x48f3434f, 0xedb2d131, 0x079c1142, 0xa2dd833c, 0xd62de755, 0x736c752b, 0x9942b558, 0x3c032726,
  0xe144fb14, 0x4405696a, 0xae2ba919, 0x0b6a3b67, 0x7f9a5f0e, 0xdadbcd70, 0x30f50d03, 0x95b49f7d,
  0xd915c5d1, 0x7c5457af, 0x967a97dc, 0x333b05a2, 0x47cb61cb, 0xe28af3b5, 0x08a433c6, 0xade5a1b8,
  0x91e6869e, 0x34a714e0, 0xde89d493, 0x7bc846ed, 0x0f382284, 0xaa79b0fa, 0x40577089, 0xe516e2f7,
  0xa9b7b85b, 0x0cf62a25, 0xe6d8ea56, 0x43997828, 0x37691c41, 0x92288e3f, 0x78064e4c, 0xdd47dc32,
  0xc76580d9, 0x622412a7, 0x880ad2d4, 0x2d4b40aa, 0x59bb24c3, 0xfcfab6bd, 0x16d476ce, 0xb395e4b0,
  0xff34be1c, 0x5a752c62, 0xb05bec11, 0x151a7e6f, 0x61ea1a06, 0xc4ab8878, 0x2e85480b, 0x8bc4da75,
  0xb7c7fd53, 0x12866f2d, 0xf8a8af5e, 0x5de93d20, 0x29195949, 0x8c58cb37, 0x66760b44, 0xc337993a,
  0x8f96c396, 0x2ad751e8, 0xc0f9919b, 0x65b803e5, 0x1148678c, 0xb409f5f2, 0x5e273581, 0xfb66a7ff,
  0x26217bcd, 0x8360e9b3, 0x694e29c0, 0xcc0fbbbe, 0xb8ffdfd7, 0x1dbe4da9, 0xf7908dda, 0x52d11fa4,
  0x1e704508, 0xbb31d776, 0x511f1705, 0xf45e857b, 0x80aee112, 0x25ef736c, 0xcfc1b31f, 0x6a802161,
  0x56830647, 0xf3c29439, 0x19ec544a, 0xbcadc634, 0xc85da25d, 0x6d1c3023, 0x8732f050, 0x2273622e,
  0x6ed23882, 0xcb93aafc, 0x21bd6a8f, 0x84fcf8f1, 0xf00c9c98, 0x554d0ee6, 0xbf63ce95, 0x1a225ceb,
  0x8b277743, 0x2e66e53d, 0xc448254e, 0x6109b730, 0x15f9d359, 0xb0b84127, 0x5a968154, 0xffd7132a,
  0xb3764986, 0x1637dbf8, 0xfc191b8b, 0x595889f5, 0x2da8ed9c, 0x88e97fe2, 0x62c7bf91, 0xc7862def,
  0xfb850ac9, 0x5ec498b7, 0xb4ea58c4, 0x11abcaba, 0x655baed3, 0xc01a3cad, 0x2a34fcde, 0x8f756ea0,
  0xc3d4340c, 0x6695a672, 0x8cbb6601, 0x29faf47f, 0x5d0a9016, 0xf84b0268, 0x1265c21b, 0xb7245065,
  0x6a638c57, 0xcf221e29, 0x250cde5a, 0x804d4c24, 0xf4bd284d, 0x51fcba33, 0xbbd27a40, 0x1e93e83e,
  0x5232b292, 0xf77320ec, 0x1d5de09f, 0xb81c72e1, 0xccec1688, 0x69ad84f6, 0x83834485, 0x26c2d6fb,
  0x1ac1f1dd, 0xbf8063a3, 0x55aea3d0, 0xf0ef31ae, 0x841f55c7, 0x215ec7b9, 0xcb7007ca, 0x6e3195b4,
  0x2290cf18, 0x87d15d66, 0x6dff9d15, 0xc8be0f6b, 0xbc4e6b02, 0x190ff97c, 0xf321390f, 0x5660ab71,
  0x4c42f79a, 0xe90365e4, 0x032da597, 0xa66c37e9, 0xd29c5380, 0x77ddc1fe, 0x9df3018d, 0x38b293f3,
  0x7413c95f, 0xd1525b21, 0x3b7c9b52, 0x9e3d092c, 0xeacd6d45, 0x4f8cff3b, 0xa5a23f48, 0x00e3ad36,
  0x3ce08a10, 0x99a1186e, 0x738fd81d, 0xd6ce4a63, 0xa23e2e0a, 0x077fbc74, 0xed517c07, 0x4810ee79,
  0x04b1b4d5, 0xa1f026ab, 0x4bdee6d8, 0xee9f74a6, 0x9a6f10cf, 0x3f2e82b1, 0xd50042c2, 0x7041d0bc,
  0xad060c8e, 0x08479ef0, 0xe2695e83, 0x4728ccfd, 0x33d8a894, 0x96993aea, 0x7cb7fa99, 0xd9f668e7,
  0x9557324b, 0x3016a035, 0xda386046, 0x7f79f238, 0x0b899651, 0xaec8042f, 0x44e6c45c, 0xe1a75622,
  0xdda47104, 0x78e5e37a, 0x92cb2309, 0x378ab177, 0x437ad51e, 0xe63b4760, 0x0c158713, 0xa954156d,
  0xe5f54fc1, 0x40b4ddbf, 0xaa9a1dcc, 0x0fdb8fb2, 0x7b2bebdb, 0xde6a79a5, 0x3444b9d6, 0x91052ba8]

def crc32cTable2 : Array (BitVec 32) := #[
  0x00000000, 0x13a29877, 0x274530ee, 0x34e7a899, 0x4e8a61dc, 0x5d28f9ab, 0x69cf5132, 0x7a6dc945,
  0x9d14c3b8, 0x8eb65bcf, 0xba51f356, 0xa9f36b21, 0xd39ea264, 0xc03c3a13, 0xf4db928a, 0xe7790afd,
  0x3fc5f181, 0x2c6769f6, 0x1880c16f, 0x0b225918, 0x714f905d, 0x62ed082a, 0x560aa0b3, 0x45a838c4,
  0xa2d13239, 0xb173aa4e, 0x859402d7, 0x96369aa0, 0xec5b53e5, 0xfff9cb92, 0xcb1e630b, 0xd8bcfb7c,
  0x7f8be302, 0x6c297b75, 0x58ced3ec, 0x4b6c4b9b, 0x310182de, 0x22a31aa9, 0x1644b230, 0x05e62a47,
  0xe29f20ba, 0xf13db8cd, 0xc5da1054, 0xd6788823, 0xac154166, 0xbfb7d911, 0x8b507188, 0x98f2e9ff,
  0x404e1283, 0x53ec8af4, 0x670b226d, 0x74a9ba1a, 0x0ec4735f, 0x1d66eb28, 0x298143b1, 0x3a23dbc6,
  0xdd5ad13b, 0xcef8494c, 0xfa1fe1d5, 0xe9bd79a2, 0x93d0b0e7, 0x80722890, 0xb4958009, 0xa737187e,
  0xff17c604, 0xecb55e73, 0xd852f6ea, 0xcbf06e9d, 0xb19da7d8, 0xa23f3faf, 0x96d89736, 0x857a0f41,
  0x620305bc, 0x71a19dcb, 0x45463552, 0x56e4ad25, 0x2c896460, 0x3f2bfc17, 0x0bcc548e, 0x186eccf9,
  0xc0d23785, 0xd370aff2, 0xe797076b, 0xf4359f1c, 0x8e585659, 0x9dface2e, 0xa91d66b7, 0xbabffec0,
  0x5dc6f43d, 0x4e646c4a, 0x7a83c4d3, 0x69215ca4, 0x134c95e1, 0x00ee0d96, 0x3409a50f, 0x27ab3d78,
  0x809c2506, 0x933ebd71, 0xa7d915e8, 0xb47b8d9f, 0xce1644da, 0xddb4dcad, 0xe9537434, 0xfaf1ec43,
  0x1d88e6be, 0x0e2a7ec9, 0x3acdd650, 0x296f4e27, 0x53028762, 0x40a01f15, 0x7447b78c, 0x67e52ffb,
  0xbf59d487, 0xacfb4cf0, 0x981ce469, 0x8bbe7c1e, 0xf1d3b55b, 0xe2712d2c, 0xd69685b5, 0xc5341dc2,
  0x224d173f, 0x31ef8f48, 0x050827d1, 0x16aabfa6, 0x6cc776e3, 0x7f65ee94, 0x4b82460d, 0x5820de7a,
  0xfbc3faf9, 0xe861628e, 0xdc86ca17, 0xcf245260, 0xb5499b25, 0xa6eb0352, 0x920cabcb, 0x81ae33bc,
  0x66d73941, 0x7575a136, 0x419209af, 0x523091d8, 0x285d589d, 0x3bffc0ea, 0x0f186873, 0x1cbaf004,
  0xc4060b78, 0xd7a4930f, 0xe3433b96, 0xf0e1a3e1, 0x8a8c6aa4, 0x992ef2d3, 0xadc95a4a, 0xbe6bc23d,
  0x5912c8c0, 0x4ab050b7, 0x7e57f82e, 0x6df56059, 0x1798a91c, 0x043a316b, 0x30dd99f2, 0x237f0185,
  0x844819fb, 0x97ea818c, 0xa30d2915, 0xb0afb162, 0xcac27827, 0xd960e050, 0xed8748c9, 0xfe25d0be,
  0x195cda43, 0x0afe4234, 0x3e19eaad, 0x2dbb72da, 0x57d6bb9f, 0x447423e8, 0x70938b71, 0x63311306,
  0xbb8de87a, 0xa82f700d, 0x9cc8d894, 0x8f6a40e3, 0xf50789a6, 0xe6a511d1, 0xd242b948, 0xc1e0213f,
  0x26992bc2, 0x353bb3b5, 0x01dc1b2c, 0x127e835b, 0x68134a1e, 0x7bb1d269, 0x4f567af0, 0x5cf4e287,
  0x04d43cfd, 0x1776a48a, 0x23910c13, 0x30339464, 0x4a5e5d21, 0x59fcc556, 0x6d1b6dcf, 0x7eb9f5b8,
  0x99c0ff45, 0x8a626732, 0xbe85cfab, 0xad2757dc, 0xd74a9e99, 0xc4e806ee, 0xf00fae77, 0xe3ad3600,
  0x3b11cd7c, 0x28b3550b, 0x1c54fd92, 0x0ff665e5, 0x759baca0, 0x663934d7, 0x52de9c4e, 0x417c0439,
  0xa6050ec4, 0xb5a796b3, 0x81403e2a, 0x92e2a65d, 0xe88f6f18, 0xfb2df76f, 0xcfca5ff6, 0xdc68c781,
  0x7b5fdfff, 0x68fd4788, 0x5c1aef11, 0x4fb87766, 0x35d5be23, 0x26772654, 0x12908ecd, 0x013216ba,
  0xe64b1c47, 0xf5e98430, 0xc10e2ca9, 0xd2acb4de, 0xa8c17d9b, 0xbb63e5ec, 0x8f844d75, 0x9c26d502,
  0x449a2e7e, 0x5738b609, 0x63df1e90, 0x707d86e7, 0x0a104fa2, 0x19b2d7d5, 0x2d557f4c, 0x3ef7e73b,
  0xd98eedc6, 0xca2c75b1, 0xfecbdd28, 0xed69455f, 0x97048c1a, 0x84a6146d, 0xb041bcf4, 0xa3e32483]

/-! ## The code -/

/-- The polynomial, reflected. -/
def crc32cReflectedPoly : BitVec 32 := 0x82f63b78

/-- The tables, eight shifts on from one to the next. -/
def crc32cTables : FourTables crc32cReflectedPoly where
  table := crc32cTable
  table0 := crc32cTable0
  table1 := crc32cTable1
  table2 := crc32cTable2
  table_eq := by decide +kernel
  table2_eq := by decide +kernel
  table1_eq := by decide +kernel
  table0_eq := by decide +kernel

/-- `crc32c_partial_four_tables`; the rounds are counted by an `int`. -/
def crc32cPartialFourTables (data : Bytes) (len : ℕ) (crc : BitVec 32) : BitVec 32 :=
  let x : BitVec 32 := BitVec.ofNat 32 (len >>> 5)
  crc32cTables.partialSum x.toInt.toNat data len crc

/-- The Castagnoli steps of the bits of `v`. -/
def castagnoli {n : ℕ} (crc : BitVec 32) (v : BitVec n) : BitVec 32 :=
  ((List.range n).map v.getLsbD).foldl (crcBit crc32cReflectedPoly) crc

/-- The instruction `crc32` with a register of `m` bits. -/
def crc32Insn {m n : ℕ} (c : BitVec m) (v : BitVec n) : BitVec m :=
  (castagnoli (c.setWidth 32) v).setWidth m

/-- The instruction on `k` bytes at `p`. -/
def crc32Mem {m : ℕ} (k : ℕ) (mem : ℕ → UInt8) (p : ℕ) (c : BitVec m) : BitVec m :=
  crc32Insn c (BitVec.ofNat (8 * k) (leWord (bytesAt mem p k)))

def crc32b {m : ℕ} (mem : ℕ → UInt8) (p : ℕ) (c : BitVec m) : BitVec m := crc32Mem 1 mem p c
def crc32w {m : ℕ} (mem : ℕ → UInt8) (p : ℕ) (c : BitVec m) : BitVec m := crc32Mem 2 mem p c
def crc32l {m : ℕ} (mem : ℕ → UInt8) (p : ℕ) (c : BitVec m) : BitVec m := crc32Mem 4 mem p c
def crc32q {m : ℕ} (mem : ℕ → UInt8) (p : ℕ) (c : BitVec m) : BitVec m := crc32Mem 8 mem p c

/-- `x` rounds of a loop with one `crc32b`. -/
def byteLoop {m : ℕ} (mem : ℕ → UInt8) : ℕ → ℕ → BitVec m → ℕ × BitVec m
  | 0, p, c => (p, c)
  | x + 1, p, c => byteLoop mem x (p + 1) (crc32b mem p c)

/-- `x` rounds of a loop with one `crc32q`. -/
def quadLoop (mem : ℕ → UInt8) : ℕ → ℕ → BitVec 64 → ℕ × BitVec 64
  | 0, p, c => (p, c)
  | x + 1, p, c => quadLoop mem x (p + 8) (crc32q mem p c)

/-- The loop that aligns the pointer. -/
def alignLoop (mem : ℕ → UInt8) : ℕ → ℕ → BitVec 64 → ℕ × ℕ × BitVec 64
  | 0, p, c => (0, p, c)
  | len + 1, p, c =>
    if p &&& 7 ≠ 0 then alignLoop mem len (p + 1) (crc32b mem p c) else (len + 1, p, c)

/-- `crc32c_partial_sse42`. -/
def crc32cPartialSse42 (mem : ℕ → UInt8) (data len : ℕ) (crc : BitVec 32) : BitVec 32 :=
  let (len, p, c) := alignLoop mem len data (crc.setWidth 64)
  let (p, c) := quadLoop mem (len / 8) p c
  let (_, c) := byteLoop mem (len % 8) p c
  c.setWidth 32

def crc32cReflectedX1023 : BitVec 64 := 0x7417153f
def crc32cReflectedX2047 : BitVec 64 := 0x1426a815
def crc32cReflectedX8191 : BitVec 64 := 0xcdc220dd
def crc32cReflectedX16383 : BitVec 64 := 0x1acaec54

/-- One word of three streams that are `d` bytes apart. -/
def threeStreams (mem : ℕ → UInt8) (d p : ℕ) (s : BitVec 64 × BitVec 64 × BitVec 64) :
    BitVec 64 × BitVec 64 × BitVec 64 :=
  (crc32q mem p s.1, crc32q mem (p + d) s.2.1, crc32q mem (p + 2 * d) s.2.2)

/-- The three streams are joined; `K` has the powers for the first two. -/
def joinStreams (K : BitVec 128) (c c1 c2 : BitVec 64) : BitVec 64 :=
  let D : BitVec 128 := c.setWidth 128
  let E : BitVec 128 := c1.setWidth 128
  let F := pclmulqdq D K 0x00 ^^^ pclmulqdq E K 0x10
  let c1 := loHalf F
  let r : BitVec 32 := crc32Insn 0 (c1.setWidth 32)
  r.setWidth 64 ^^^ c1 >>> 32 ^^^ c2

/-- `0x400` bytes of each stream, two words a round. -/
def longStreams (mem : ℕ → UInt8) (p : ℕ) (c : BitVec 64) : BitVec 64 × BitVec 64 × BitVec 64 :=
  (List.range 64).foldl (fun s i =>
    threeStreams mem 0x400 (p + 16 * i + 8) (threeStreams mem 0x400 (p + 16 * i) s)) (c, 0, 0)

/-- `0x80` bytes of each stream. -/
def shortStreams (mem : ℕ → UInt8) (p : ℕ) (c : BitVec 64) : BitVec 64 × BitVec 64 × BitVec 64 :=
  (List.range 16).foldl (fun s i => threeStreams mem 0x80 (p + 8 * i) s) (c, 0, 0)

/-- `x` rounds of the loop with `3 * 0x400` bytes a round. -/
def longLoop (mem : ℕ → UInt8) : ℕ → ℕ → BitVec 64 → ℕ × BitVec 64
  | 0, p, c => (p, c)
  | x + 1, p, c =>
    let s := longStreams mem p c
    let K := v2di crc32cReflectedX16383 crc32cReflectedX8191
    longLoop mem x (p + 0x400 + 0x800) (joinStreams K s.1 s.2.1 s.2.2)

/-- `x` rounds of the loop with `0x180` bytes a round. -/
def shortLoop (mem : ℕ → UInt8) : ℕ → ℕ → BitVec 64 → ℕ × BitVec 64
  | 0, p, c => (p, c)
  | x + 1, p, c =>
    let s := shortStreams mem p c
    let K := v2di crc32cReflectedX2047 crc32cReflectedX1023
    shortLoop mem x (p + 0x180) (joinStreams K s.1 s.2.1 s.2.2)

/-- `x` rounds of the loop with four `crc32q`. -/
def fourQuadLoop (mem : ℕ → UInt8) : ℕ → ℕ → BitVec 64 → ℕ × BitVec 64
  | 0, p, c => (p, c)
  | x + 1, p, c =>
    let c := crc32q mem (p + 0x18) (crc32q mem (p + 0x10) (crc32q mem (p + 8) (crc32q mem p c)))
    fourQuadLoop mem x (p + 32) c

/-- The part of `crc32c_partial_sse42_clmul` from an aligned pointer on. -/
def sse42ClmulAligned (mem : ℕ → UInt8) (p len : ℕ) (crc : BitVec 32) : BitVec 32 :=
  let (p, c) := longLoop mem (len / (3 * 0x400)) p (crc.setWidth 64)
  let len := len % (3 * 0x400)
  let (p, c) := shortLoop mem (len / 0x180) p c
  let len := len % 0x180
  let (p, c) := fourQuadLoop mem (len / 32) p c
  let len := len % 32
  let (p, c) := quadLoop mem (len / 8) p c
  let len := len % 8
  let crc : BitVec 32 := c.setWidth 32
  let (p, crc) := if len &&& 4 ≠ 0 then (p + 4, crc32l mem p crc) else (p, crc)
  if len &&& 3 = 0 then crc
  else
    let (p, crc) := if len &&& 2 ≠ 0 then (p + 2, crc32w mem p crc) else (p, crc)
    if len &&& 1 ≠ 0 then crc32b mem p crc else crc

/-- `crc32c_partial_sse42_clmul`. -/
def crc32cPartialSse42Clmul (mem : ℕ → UInt8) (data len : ℕ) (crc : BitVec 32) : BitVec 32 :=
  let (len, p, crc) := if data &&& 1 ≠ 0 ∧ 0 < len
    then (len - 1, data + 1, crc32b mem data crc) else (len, data, crc)
  let (len, p, crc) := if p &&& 2 ≠ 0 ∧ 2 ≤ len
    then (len - 2, p + 2, crc32w mem p crc) else (len, p, crc)
  let (len, p, crc) := if p &&& 4 ≠ 0 ∧ 4 ≤ len
    then (len - 4, p + 4, crc32l mem p crc) else (len, p, crc)
  if p &&& 7 ≠ 0 then (byteLoop mem len p crc).2 else sse42ClmulAligned mem p len crc

/-! ## The instruction -/

theorem value_castagnoli {n : ℕ} (crc : BitVec 32) (v : BitVec n) :
    value crc32cReflectedPoly (castagnoli crc v)
      = crcX crc32cReflectedPoly ^ n * value crc32cReflectedPoly crc
        + crcX crc32cReflectedPoly ^ 32 * value crc32cReflectedPoly v := by
  have h : value crc32cReflectedPoly (castagnoli crc v) = _ := value_foldl_crcBit crc v.toNat n
  rwa [Nat.mod_eq_of_lt v.isLt] at h

/-- A register of `m` bits that holds a remainder. -/
theorem setWidth_setWidth {m : ℕ} (hm : 32 ≤ m) (c : BitVec 32) :
    (c.setWidth m).setWidth 32 = c := by
  apply BitVec.eq_of_toNat_eq
  have hpow : 2 ^ 32 ≤ 2 ^ m := Nat.pow_le_pow_right two_pos hm
  have hc := c.isLt
  rw [BitVec.toNat_setWidth, BitVec.toNat_setWidth, Nat.mod_eq_of_lt (by omega : c.toNat < 2 ^ m),
    Nat.mod_eq_of_lt hc]

/-- **The instruction on bytes in memory.** -/
theorem crc32Mem_eq {m : ℕ} (hm : 32 ≤ m) (k : ℕ) (mem : ℕ → UInt8) (p : ℕ) (c : BitVec 32) :
    crc32Mem k mem p (c.setWidth m)
      = (crcBytes crc32cReflectedPoly c (bytesAt mem p k)).setWidth m := by
  unfold crc32Mem crc32Insn
  rw [setWidth_setWidth hm]
  congr 1
  apply value_injective crc32cReflectedPoly
  rw [value_castagnoli, value_crcBytes, value_ofNat_leWord (by rw [length_bytesAt]),
    length_bytesAt]

/-- `n` bytes from `data` on are in the register `c`, and the next one is at `p`. -/
def Taken {m : ℕ} (mem : ℕ → UInt8) (data : ℕ) (crc : BitVec 32) (n p : ℕ) (c : BitVec m) : Prop :=
  p = data + n ∧ c = (crcBytes crc32cReflectedPoly crc (bytesAt mem data n)).setWidth m

section Loops

variable {mem : ℕ → UInt8} {data n p : ℕ} {crc : BitVec 32} {m : ℕ}

/-- `k` more bytes. -/
theorem Taken.add {c c' : BitVec m} {k : ℕ} (h : Taken mem data crc n p c)
    (hc : ∀ x : BitVec 32, c = x.setWidth m →
      c' = (crcBytes crc32cReflectedPoly x (bytesAt mem p k)).setWidth m) :
    Taken mem data crc (n + k) (p + k) c' := by
  obtain ⟨hp, hcrc⟩ := h
  refine ⟨by omega, ?_⟩
  rw [hc _ hcrc, hp, bytesAt_add, crcBytes_append]

theorem Taken.insn (hm : 32 ≤ m) {c : BitVec m} (h : Taken mem data crc n p c) (k : ℕ) :
    Taken mem data crc (n + k) (p + k) (crc32Mem k mem p c) := by
  apply h.add
  rintro x rfl
  exact crc32Mem_eq hm k mem p x

theorem Taken.byteLoop (hm : 32 ≤ m) (x : ℕ) {c : BitVec m} (h : Taken mem data crc n p c) :
    Taken mem data crc (n + x) (byteLoop mem x p c).1 (byteLoop mem x p c).2 := by
  induction x generalizing n p c with
  | zero => exact h
  | succ x ih =>
    rw [show n + (x + 1) = n + 1 + x by ring]
    exact ih (h.insn hm 1)

theorem Taken.quadLoop (x : ℕ) {c : BitVec 64} (h : Taken mem data crc n p c) :
    Taken mem data crc (n + 8 * x) (quadLoop mem x p c).1 (quadLoop mem x p c).2 := by
  induction x generalizing n p c with
  | zero => exact h
  | succ x ih =>
    rw [show n + 8 * (x + 1) = n + 8 + 8 * x by ring]
    exact ih (h.insn (by norm_num) 8)

theorem Taken.fourQuadLoop (x : ℕ) {c : BitVec 64} (h : Taken mem data crc n p c) :
    Taken mem data crc (n + 32 * x) (fourQuadLoop mem x p c).1 (fourQuadLoop mem x p c).2 := by
  induction x generalizing n p c with
  | zero => exact h
  | succ x ih =>
    have hround := (((h.insn (by norm_num) 8).insn (by norm_num) 8).insn (by norm_num) 8).insn
      (by norm_num) 8
    rw [show n + 32 * (x + 1) = n + 8 + 8 + 8 + 8 + 32 * x by ring]
    exact ih hround

theorem Taken.alignLoop (len : ℕ) {c : BitVec 64} (h : Taken mem data crc n p c) :
    ∃ k, k + (alignLoop mem len p c).1 = len ∧
      Taken mem data crc (n + k) (alignLoop mem len p c).2.1 (alignLoop mem len p c).2.2 := by
  induction len generalizing n p c with
  | zero => exact ⟨0, rfl, h⟩
  | succ len ih =>
    unfold MtprotoProxy.alignLoop
    split_ifs with hp
    · obtain ⟨k, hlen, htaken⟩ := ih (h.insn (by norm_num) 1)
      refine ⟨k + 1, ?_, ?_⟩
      · show k + 1 + (MtprotoProxy.alignLoop mem len (p + 1) (crc32Mem 1 mem p c)).1 = len + 1
        omega
      · rwa [show n + (k + 1) = n + 1 + k by ring]
    · exact ⟨0, zero_add _, h⟩

end Loops

/-- `crc32c_partial_sse42` is the bit-by-bit CRC. -/
theorem crc32cPartialSse42_eq (mem : ℕ → UInt8) (data len : ℕ) (crc : BitVec 32) :
    crc32cPartialSse42 mem data len crc
      = crcBytes crc32cReflectedPoly crc (bytesAt mem data len) := by
  have hstart : Taken mem data crc 0 data (crc.setWidth 64) := ⟨rfl, rfl⟩
  obtain ⟨k, hlen, halign⟩ := hstart.alignLoop len
  have hquads := halign.quadLoop ((alignLoop mem len data (crc.setWidth 64)).1 / 8)
  have hbytes := hquads.byteLoop (by norm_num) ((alignLoop mem len data (crc.setWidth 64)).1 % 8)
  have hall : 0 + k + 8 * ((alignLoop mem len data (crc.setWidth 64)).1 / 8)
      + (alignLoop mem len data (crc.setWidth 64)).1 % 8 = len := by omega
  rw [hall] at hbytes
  show BitVec.setWidth 32 _ = _
  rw [hbytes.2, setWidth_setWidth (by norm_num)]

/-! ## Three streams -/

/-- Three streams that are `d` bytes apart have taken `8 * j` bytes each. -/
structure Streams (mem : ℕ → UInt8) (d p : ℕ) (x : BitVec 32) (j : ℕ)
    (s : BitVec 64 × BitVec 64 × BitVec 64) : Prop where
  first : Taken mem p x (8 * j) (p + 8 * j) s.1
  second : Taken mem (p + d) 0 (8 * j) (p + d + 8 * j) s.2.1
  third : Taken mem (p + 2 * d) 0 (8 * j) (p + 2 * d + 8 * j) s.2.2

section Join

variable {mem : ℕ → UInt8} {d p j : ℕ} {x : BitVec 32}

theorem Streams.start : Streams mem d p x 0 (x.setWidth 64, 0, 0) :=
  ⟨⟨rfl, rfl⟩, ⟨rfl, rfl⟩, ⟨rfl, rfl⟩⟩

theorem Streams.next {s : BitVec 64 × BitVec 64 × BitVec 64} (h : Streams mem d p x j s) :
    Streams mem d p x (j + 1) (threeStreams mem d (p + 8 * j) s) := by
  have hfirst := h.first.insn (by norm_num) 8
  have hsecond := h.second.insn (by norm_num) 8
  have hthird := h.third.insn (by norm_num) 8
  rw [add_right_comm p d] at hsecond
  rw [add_right_comm p (2 * d)] at hthird
  refine ⟨hfirst, ?_, ?_⟩
  · rw [mul_add, mul_one, ← add_assoc, add_right_comm p d]
    exact hsecond
  · rw [mul_add, mul_one, ← add_assoc, add_right_comm p (2 * d)]
    exact hthird

/-- **The join**: the first two remainders are moved over what is behind them. -/
theorem value_joinStreams (x₀ x₁ x₂ k₀ k₁ : BitVec 32) :
    ∃ r : BitVec 32,
      joinStreams (v2di (k₀.setWidth 64) (k₁.setWidth 64)) (x₀.setWidth 64) (x₁.setWidth 64)
        (x₂.setWidth 64) = r.setWidth 64 ∧
      value crc32cReflectedPoly r
        = crcX crc32cReflectedPoly * value crc32cReflectedPoly x₀ * value crc32cReflectedPoly k₀
          + crcX crc32cReflectedPoly * value crc32cReflectedPoly x₁ * value crc32cReflectedPoly k₁
          + value crc32cReflectedPoly x₂ := by
  have hwide (a : BitVec 32) : loHalf ((a.setWidth 64).setWidth 128) = a.setWidth 64 := by
    apply BitVec.eq_of_toNat_eq
    have ha := a.isLt
    rw [toNat_loHalf, BitVec.toNat_setWidth, BitVec.toNat_setWidth]
    omega
  have hF : loHalf (pclmulqdq ((x₀.setWidth 64).setWidth 128)
        (v2di (k₀.setWidth 64) (k₁.setWidth 64)) 0x00
      ^^^ pclmulqdq ((x₁.setWidth 64).setWidth 128)
        (v2di (k₀.setWidth 64) (k₁.setWidth 64)) 0x10) = clmul x₀ k₀ ^^^ clmul x₁ k₁ := by
    have hlo : pclmulqdq ((x₀.setWidth 64).setWidth 128)
        (v2di (k₀.setWidth 64) (k₁.setWidth 64)) 0x00
        = clmul (loHalf ((x₀.setWidth 64).setWidth 128))
          (loHalf (v2di (k₀.setWidth 64) (k₁.setWidth 64))) := rfl
    have hhi : pclmulqdq ((x₁.setWidth 64).setWidth 128)
        (v2di (k₀.setWidth 64) (k₁.setWidth 64)) 0x10
        = clmul (loHalf ((x₁.setWidth 64).setWidth 128))
          (hiHalf (v2di (k₀.setWidth 64) (k₁.setWidth 64))) := rfl
    rw [loHalf_xor, hlo, hhi, hwide, hwide, loHalf_v2di, hiHalf_v2di, loHalf_clmul, loHalf_clmul]
  obtain ⟨W, hW⟩ : ∃ W : BitVec 64, clmul x₀ k₀ ^^^ clmul x₁ k₁ = W := ⟨_, rfl⟩
  refine ⟨castagnoli 0 (W.setWidth 32) ^^^ (W >>> 32).setWidth 32 ^^^ x₂, ?_, ?_⟩
  · unfold joinStreams
    dsimp only
    have hinsn : crc32Insn (0 : BitVec 32) (W.setWidth 32) = castagnoli 0 (W.setWidth 32) :=
      BitVec.setWidth_eq _
    have hhigh : ((W >>> 32).setWidth 32).setWidth 64 = W >>> 32 := by
      apply BitVec.eq_of_toNat_eq
      have hlt := W.isLt
      rw [BitVec.toNat_setWidth, BitVec.toNat_setWidth, BitVec.toNat_ushiftRight,
        Nat.shiftRight_eq_div_pow]
      omega
    rw [hF, hW, hinsn, BitVec.setWidth_xor, BitVec.setWidth_xor, hhigh]
  · have hvalue : value crc32cReflectedPoly W
        = crcX crc32cReflectedPoly * value crc32cReflectedPoly x₀ * value crc32cReflectedPoly k₀
          + crcX crc32cReflectedPoly * value crc32cReflectedPoly x₁
            * value crc32cReflectedPoly k₁ := by
      rw [← hW, ← value_clmul, ← value_clmul]
      exact value_xor _ _
    have hzero : value crc32cReflectedPoly (0 : BitVec 32) = 0 := value_zero
    rw [value_xor, value_xor, value_castagnoli, hzero, mul_zero, zero_add, ← value_words, hvalue]

/-- The halves of `K` are powers that move a remainder over `2 * d` and over `d` bytes. -/
structure Moves (d : ℕ) (K : BitVec 128) (k₀ k₁ : BitVec 32) : Prop where
  halves : K = v2di (k₀.setWidth 64) (k₁.setWidth 64)
  two : crcX crc32cReflectedPoly * value crc32cReflectedPoly k₀
    = crcX crc32cReflectedPoly ^ (8 * (2 * d))
  one : crcX crc32cReflectedPoly * value crc32cReflectedPoly k₁
    = crcX crc32cReflectedPoly ^ (8 * d)

/-- **Three streams of `d` bytes are `3 * d` bytes.** -/
theorem Streams.join {s : BitVec 64 × BitVec 64 × BitVec 64} {K : BitVec 128}
    {k₀ k₁ : BitVec 32} (h : Streams mem d p x j s) (hd : 8 * j = d) (hK : Moves d K k₀ k₁) :
    joinStreams K s.1 s.2.1 s.2.2
      = (crcBytes crc32cReflectedPoly x (bytesAt mem p (3 * d))).setWidth 64 := by
  obtain ⟨r, hrun, hr⟩ := value_joinStreams
    (crcBytes crc32cReflectedPoly x (bytesAt mem p d))
    (crcBytes crc32cReflectedPoly 0 (bytesAt mem (p + d) d))
    (crcBytes crc32cReflectedPoly 0 (bytesAt mem (p + 2 * d) d)) k₀ k₁
  have h₀ := h.first.2
  have h₁ := h.second.2
  have h₂ := h.third.2
  rw [hd] at h₀ h₁ h₂
  rw [h₀, h₁, h₂, hK.halves, hrun]
  congr 1
  apply value_injective crc32cReflectedPoly
  have hzero : value crc32cReflectedPoly (0 : BitVec 32) = 0 := value_zero
  rw [hr, value_crcBytes, value_crcBytes, value_crcBytes, value_crcBytes, hzero,
    show 3 * d = d + d + d by ring, bytesAt_add, bytesAt_add, bytesValue_append, bytesValue_append,
    List.length_append]
  simp only [List.length_append, length_bytesAt, show p + (d + d) = p + 2 * d by ring]
  linear_combination
    (crcX crc32cReflectedPoly ^ (8 * d) * value crc32cReflectedPoly x
      + crcX crc32cReflectedPoly ^ 32 * bytesValue crc32cReflectedPoly (bytesAt mem p d)) * hK.two
    + crcX crc32cReflectedPoly ^ 32 * bytesValue crc32cReflectedPoly (bytesAt mem (p + d) d)
      * hK.one

end Join

/-- The constants, by repeated squares. -/
theorem moves_of_squares {d t : ℕ} {K : BitVec 128} {k₀ k₁ : BitVec 32} (hd : 8 * d = 2 ^ t)
    (hK : K = v2di (k₀.setWidth 64) (k₁.setWidth 64))
    (h₀ : crcShift crc32cReflectedPoly k₀
      = (fun b => crcMul crc32cReflectedPoly b b)^[t + 1] (BitVec.twoPow 32 (32 - 1 - 1)))
    (h₁ : crcShift crc32cReflectedPoly k₁
      = (fun b => crcMul crc32cReflectedPoly b b)^[t] (BitVec.twoPow 32 (32 - 1 - 1))) :
    Moves d K k₀ k₁ := by
  have hx : value crc32cReflectedPoly (BitVec.twoPow 32 (32 - 1 - 1)) = crcX crc32cReflectedPoly ^ 1 :=
    value_twoPow (by norm_num)
  refine ⟨hK, ?_, ?_⟩
  · rw [← value_crcShift, h₀, value_squares, hx, pow_one, show 8 * (2 * d) = 2 * (8 * d) by ring,
      hd, pow_succ']
  · rw [← value_crcShift, h₁, value_squares, hx, pow_one, hd]

theorem moves_long : Moves 0x400 (v2di crc32cReflectedX16383 crc32cReflectedX8191)
    0x1acaec54 0xcdc220dd :=
  moves_of_squares (t := 13) (by norm_num) (by decide +kernel) (by decide +kernel)
    (by decide +kernel)

theorem moves_short : Moves 0x80 (v2di crc32cReflectedX2047 crc32cReflectedX1023)
    0x1426a815 0x7417153f :=
  moves_of_squares (t := 10) (by norm_num) (by decide +kernel) (by decide +kernel)
    (by decide +kernel)

section Rounds

variable {mem : ℕ → UInt8} {data n p : ℕ} {crc : BitVec 32} {c : BitVec 64}

theorem longStreams_spec (y : BitVec 32) :
    Streams mem 0x400 p y 128 (longStreams mem p (y.setWidth 64)) := by
  have hfold (i : ℕ) : Streams mem 0x400 p y (2 * i) ((List.range i).foldl (fun s i =>
      threeStreams mem 0x400 (p + 16 * i + 8) (threeStreams mem 0x400 (p + 16 * i) s))
      (y.setWidth 64, 0, 0)) := by
    induction i with
    | zero => exact .start
    | succ i ih =>
      have hnext := ih.next.next
      rw [show p + 8 * (2 * i) = p + 16 * i by ring,
        show p + 8 * (2 * i + 1) = p + 16 * i + 8 by ring] at hnext
      rw [List.range_succ, List.foldl_concat]
      exact hnext
  exact hfold 64

theorem shortStreams_spec (y : BitVec 32) :
    Streams mem 0x80 p y 16 (shortStreams mem p (y.setWidth 64)) := by
  have hfold (i : ℕ) : Streams mem 0x80 p y i
      ((List.range i).foldl (fun s i => threeStreams mem 0x80 (p + 8 * i) s)
        (y.setWidth 64, 0, 0)) := by
    induction i with
    | zero => exact .start
    | succ i ih =>
      rw [List.range_succ, List.foldl_concat]
      exact ih.next
  exact hfold 16

theorem Taken.longLoop (x : ℕ) (h : Taken mem data crc n p c) :
    Taken mem data crc (n + 3 * 0x400 * x) (longLoop mem x p c).1 (longLoop mem x p c).2 := by
  induction x generalizing n p c with
  | zero => exact h
  | succ x ih =>
    have hround : Taken mem data crc (n + 3 * 0x400) (p + 3 * 0x400)
        (joinStreams (v2di crc32cReflectedX16383 crc32cReflectedX8191) (longStreams mem p c).1
          (longStreams mem p c).2.1 (longStreams mem p c).2.2) := by
      apply h.add
      rintro y rfl
      exact (longStreams_spec y).join (by norm_num) moves_long
    unfold MtprotoProxy.longLoop
    rw [show n + 3 * 0x400 * (x + 1) = n + 3 * 0x400 + 3 * 0x400 * x by ring,
      show p + 0x400 + 0x800 = p + 3 * 0x400 by ring]
    exact ih hround

theorem Taken.shortLoop (x : ℕ) (h : Taken mem data crc n p c) :
    Taken mem data crc (n + 0x180 * x) (shortLoop mem x p c).1 (shortLoop mem x p c).2 := by
  induction x generalizing n p c with
  | zero => exact h
  | succ x ih =>
    have hround : Taken mem data crc (n + 3 * 0x80) (p + 3 * 0x80)
        (joinStreams (v2di crc32cReflectedX2047 crc32cReflectedX1023) (shortStreams mem p c).1
          (shortStreams mem p c).2.1 (shortStreams mem p c).2.2) := by
      apply h.add
      rintro y rfl
      exact (shortStreams_spec y).join (by norm_num) moves_short
    unfold MtprotoProxy.shortLoop
    rw [show n + 0x180 * (x + 1) = n + 3 * 0x80 + 0x180 * x by ring,
      show p + 0x180 = p + 3 * 0x80 by ring]
    exact ih hround

end Rounds

/-! ## The whole -/

section Whole

variable {mem : ℕ → UInt8} {data n p : ℕ} {crc : BitVec 32} {c : BitVec 32}

theorem Taken.wide (h : Taken mem data crc n p c) : Taken mem data crc n p (c.setWidth 64) := by
  obtain ⟨hp, rfl⟩ := h
  refine ⟨hp, ?_⟩
  rw [BitVec.setWidth_eq]

theorem Taken.low {c : BitVec 64} (h : Taken mem data crc n p c) :
    Taken mem data crc n p (c.setWidth 32) := by
  obtain ⟨hp, rfl⟩ := h
  refine ⟨hp, ?_⟩
  rw [setWidth_setWidth (by norm_num), BitVec.setWidth_eq]

theorem Taken.eq (h : Taken mem data crc n p c) :
    c = crcBytes crc32cReflectedPoly crc (bytesAt mem data n) := by
  rw [h.2, BitVec.setWidth_eq]

/-- An instruction for a bit of the length. -/
theorem Taken.insn_if (h : Taken mem data crc n p c) {len k : ℕ}
    (hbit : len &&& k ≠ 0 ↔ len / k % 2 = 1) :
    Taken mem data crc (n + k * (len / k % 2))
      (if len &&& k ≠ 0 then (p + k, crc32Mem k mem p c) else (p, c)).1
      (if len &&& k ≠ 0 then (p + k, crc32Mem k mem p c) else (p, c)).2 := by
  split_ifs with hset
  · rw [hbit.mp hset, mul_one]
    exact h.insn (by norm_num) k
  · rw [hbit] at hset
    rw [show len / k % 2 = 0 by omega, mul_zero, add_zero]
    exact h

/-- From an aligned pointer on. -/
theorem sse42ClmulAligned_eq (len : ℕ) (h : Taken mem data crc n p c) :
    sse42ClmulAligned mem p len c
      = crcBytes crc32cReflectedPoly crc (bytesAt mem data (n + len)) := by
  have h₁ := h.wide.longLoop (len / (3 * 0x400))
  unfold sse42ClmulAligned
  generalize longLoop mem (len / (3 * 0x400)) p (c.setWidth 64) = s at h₁ ⊢
  obtain ⟨p₁, c₁⟩ := s
  dsimp only at h₁ ⊢
  have h₂ := h₁.shortLoop (len % (3 * 0x400) / 0x180)
  generalize shortLoop mem (len % (3 * 0x400) / 0x180) p₁ c₁ = s at h₂ ⊢
  obtain ⟨p₂, c₂⟩ := s
  dsimp only at h₂ ⊢
  have h₃ := h₂.fourQuadLoop (len % (3 * 0x400) % 0x180 / 32)
  generalize fourQuadLoop mem (len % (3 * 0x400) % 0x180 / 32) p₂ c₂ = s at h₃ ⊢
  obtain ⟨p₃, c₃⟩ := s
  dsimp only at h₃ ⊢
  have h₄ := h₃.quadLoop (len % (3 * 0x400) % 0x180 % 32 / 8)
  generalize quadLoop mem (len % (3 * 0x400) % 0x180 % 32 / 8) p₃ c₃ = s at h₄ ⊢
  obtain ⟨p₄, c₄⟩ := s
  dsimp only at h₄ ⊢
  -- at most seven bytes are left
  obtain ⟨t, ht⟩ : ∃ t, len % (3 * 0x400) % 0x180 % 32 % 8 = t := ⟨_, rfl⟩
  rw [ht]
  have h₅ := h₄.low.insn_if (and_pow_ne_zero t 2)
  have hthree : t &&& 3 = t % 4 := Nat.and_two_pow_sub_one_eq_mod t 2
  unfold crc32l
  generalize (if t &&& 4 ≠ 0 then (p₄ + 4, crc32Mem 4 mem p₄ (c₄.setWidth 32))
      else (p₄, c₄.setWidth 32)) = s at h₅ ⊢
  obtain ⟨p₅, c₅⟩ := s
  dsimp only at h₅ ⊢
  rw [hthree]
  by_cases hnone : t % 4 = 0
  · rw [if_pos hnone, h₅.eq]
    congr 2
    omega
  · have h₆ := h₅.insn_if (and_pow_ne_zero t 1)
    rw [if_neg hnone]
    unfold crc32w crc32b
    generalize (if t &&& 2 ≠ 0 then (p₅ + 2, crc32Mem 2 mem p₅ c₅) else (p₅, c₅)) = s at h₆ ⊢
    obtain ⟨p₆, c₆⟩ := s
    have h₇ := (h₆.insn_if (and_pow_ne_zero t 0)).eq
    rw [apply_ite Prod.snd] at h₇
    apply h₇.trans
    congr 2
    omega

/-- An instruction that aligns the pointer, where its condition holds. -/
theorem Taken.align_if (h : Taken mem data crc n p c) {len k : ℕ} {P : Prop} [Decidable P]
    (hk : P → k ≤ len) :
    ∃ j, j + (if P then (len - k, p + k, crc32Mem k mem p c) else (len, p, c)).1 = len ∧
      Taken mem data crc (n + j)
        (if P then (len - k, p + k, crc32Mem k mem p c) else (len, p, c)).2.1
        (if P then (len - k, p + k, crc32Mem k mem p c) else (len, p, c)).2.2 := by
  split_ifs with hP
  · exact ⟨k, Nat.add_sub_cancel' (hk hP), h.insn (by norm_num) k⟩
  · exact ⟨0, zero_add len, h⟩

/-- `crc32c_partial_sse42_clmul` is the bit-by-bit CRC. -/
theorem crc32cPartialSse42Clmul_eq (mem : ℕ → UInt8) (data len : ℕ) (crc : BitVec 32) :
    crc32cPartialSse42Clmul mem data len crc
      = crcBytes crc32cReflectedPoly crc (bytesAt mem data len) := by
  have h₀ : Taken mem data crc 0 data crc := ⟨rfl, (BitVec.setWidth_eq crc).symm⟩
  have h₁ := h₀.align_if (P := data &&& 1 ≠ 0 ∧ 0 < len) (k := 1) (fun h => h.2)
  unfold crc32cPartialSse42Clmul crc32b crc32w crc32l
  generalize (if data &&& 1 ≠ 0 ∧ 0 < len
      then (len - 1, data + 1, crc32Mem 1 mem data crc) else (len, data, crc)) = s at h₁ ⊢
  obtain ⟨len₁, p₁, c₁⟩ := s
  obtain ⟨j₁, hj₁, h₁⟩ := h₁
  dsimp only at hj₁ h₁ ⊢
  have h₂ := h₁.align_if (P := p₁ &&& 2 ≠ 0 ∧ 2 ≤ len₁) (k := 2) (fun h => h.2)
  generalize (if p₁ &&& 2 ≠ 0 ∧ 2 ≤ len₁
      then (len₁ - 2, p₁ + 2, crc32Mem 2 mem p₁ c₁) else (len₁, p₁, c₁)) = s at h₂ ⊢
  obtain ⟨len₂, p₂, c₂⟩ := s
  obtain ⟨j₂, hj₂, h₂⟩ := h₂
  dsimp only at hj₂ h₂ ⊢
  have h₃ := h₂.align_if (P := p₂ &&& 4 ≠ 0 ∧ 4 ≤ len₂) (k := 4) (fun h => h.2)
  generalize (if p₂ &&& 4 ≠ 0 ∧ 4 ≤ len₂
      then (len₂ - 4, p₂ + 4, crc32Mem 4 mem p₂ c₂) else (len₂, p₂, c₂)) = s at h₃ ⊢
  obtain ⟨len₃, p₃, c₃⟩ := s
  obtain ⟨j₃, hj₃, h₃⟩ := h₃
  dsimp only at hj₃ h₃ ⊢
  have hall : 0 + j₁ + j₂ + j₃ + len₃ = len := by omega
  split_ifs
  · rw [← hall]
    exact (h₃.byteLoop le_rfl len₃).eq
  · rw [sse42ClmulAligned_eq len₃ h₃, hall]

/-- `crc32c_partial_four_tables` is the bit-by-bit CRC. -/
theorem crc32cPartialFourTables_eq {data : Bytes} {len : ℕ} (crc : BitVec 32)
    (hlen : len ≤ data.length) (hint : len < 2 ^ 36) :
    crc32cPartialFourTables data len crc
      = crcBytes crc32cReflectedPoly crc (data.take len) := by
  apply crc32cTables.partialSum_eq _ crc hlen
  have hx : (BitVec.ofNat 32 (len >>> 5)).toNat = len / 32 := by
    rw [BitVec.toNat_ofNat, Nat.shiftRight_eq_div_pow]
    omega
  rw [BitVec.toInt_eq_toNat_of_lt (by omega), hx, Int.toNat_natCast]

end Whole

/-- **The implementations agree**, wherever the bytes lie. -/
theorem crc32c_implementations_agree (mem : ℕ → UInt8) (data : ℕ) {len : ℕ} (h : len < 2 ^ 36)
    (crc : BitVec 32) :
    crc32cPartialSse42 mem data len crc
      = crc32cPartialFourTables (bytesAt mem data len) len crc ∧
    crc32cPartialSse42Clmul mem data len crc
      = crc32cPartialFourTables (bytesAt mem data len) len crc := by
  rw [crc32cPartialFourTables_eq crc (by rw [length_bytesAt]) h,
    List.take_of_length_le (by rw [length_bytesAt])]
  exact ⟨crc32cPartialSse42_eq mem data len crc, crc32cPartialSse42Clmul_eq mem data len crc⟩

/-- Bytes at an odd address. -/
theorem crc32c_implementations_agree_odd :
    9 < 2 ^ 36 ∧
    crc32cPartialSse42 (fun i => UInt8.ofNat i) 49 9 (-1)
      = crc32cPartialFourTables (bytesAt (fun i => UInt8.ofNat i) 49 9) 9 (-1) ∧
    crc32cPartialSse42Clmul (fun i => UInt8.ofNat i) 49 9 (-1)
      = crc32cPartialFourTables (bytesAt (fun i => UInt8.ofNat i) 49 9) 9 (-1) :=
  ⟨by norm_num, crc32c_implementations_agree _ 49 (by norm_num) (-1)⟩

end MtprotoProxy
