/-!
# The transitions of the Huffman decoder

Decoding takes four bits at a time. What four bits do depends only on the beginning of a codeword
that was read before them, and there are 256 such beginnings, one for each branching of the code:
these are the states. The table has a row for each state and in it an entry for each value of the
four bits.

## Entries

An entry is written with five hexadecimal digits: two for the next state, two for an octet, and one
for what goes with them. In the last digit `1` says that the string may end here, `2` that the octet
has been completed, and `4` that the four bits complete the end-of-string word. Most beginnings are
those of words for rare octets, so most rows repeat themselves with another octet.

State 0 is the one between codewords, where a string may always end. Elsewhere it may end only
within padding.
-/

namespace FieldCompression.Huffman

/-- The rows of the table by state, each with the entry for the bits `0000` first. -/
def transitionRows : List Nat := [
  0x57000_58000_83000_87000_8f000_45000_53000_5a000_64000_84000_8a000_5f000_69000_70000_77000_04001,
  0x65000_81000_85000_86000_8b000_8c000_8e000_60000_6a000_6d000_71000_74000_78000_88000_90000_05001,
  0x6b000_6c000_6e000_6f000_72000_73000_75000_76000_79000_7a000_89000_8d000_91000_92000_4b000_06001,
  0x00553_00563_00573_00593_006a3_006b3_00713_00763_00773_00783_00793_007a3_4c000_50000_7b000_07001,
  0x42772_01773_42782_01783_42792_01793_427a2_017a3_00263_002a3_002c3_003b3_00583_005a3_47000_08000,
  0x42262_01263_422a2_012a3_422c2_012c3_423b2_013b3_42582_01583_425a2_015a3_48000_4f000_4d000_09000,
  0x55582_43582_5d582_02583_555a2_435a2_5d5a2_025a3_00213_00223_00283_00293_003f3_4e000_49000_0a000,
  0x42212_01213_42222_01223_42282_01283_42292_01293_423f2_013f3_00273_002b3_007c3_4a000_0b000_0d000,
  0x553f2_433f2_5d3f2_023f3_42272_01273_422b2_012b3_427c2_017c3_00233_003e3_0c000_66000_7f000_0e000,
  0x557c2_437c2_5d7c2_027c3_42232_01233_423e2_013e3_00003_00243_00403_005b3_005d3_007e3_80000_0f000,
  0x42002_01003_42242_01243_42402_01403_425b2_015b3_425d2_015d3_427e2_017e3_005e3_007d3_62000_10000,
  0x55002_43002_5d002_02003_55242_43242_5d242_02243_55402_43402_5d402_02403_555b2_435b2_5d5b2_025b3,
  0x56002_82002_44002_52002_63002_5e002_68002_03003_56242_82242_44242_52242_63242_5e242_68242_03243,
  0x555d2_435d2_5d5d2_025d3_557e2_437e2_5d7e2_027e3_425e2_015e3_427d2_017d3_003c3_00603_007b3_11000,
  0x555e2_435e2_5d5e2_025e3_557d2_437d2_5d7d2_027d3_423c2_013c3_42602_01603_427b2_017b3_7c000_12000,
  0x553c2_433c2_5d3c2_023c3_55602_43602_5d602_02603_557b2_437b2_5d7b2_027b3_7d000_9b000_96000_13000,
  0x567b2_827b2_447b2_527b2_637b2_5e7b2_687b2_037b3_7e000_94000_9c000_af000_c4000_97000_14000_19000,
  0x005c3_00c33_00d03_95000_9d000_cc000_f1000_b0000_c5000_eb000_98000_b2000_c7000_15000_a7000_1a000,
  0xc6000_ca000_ec000_f2000_99000_9e000_b3000_b7000_c8000_ce000_d8000_16000_a8000_b9000_29000_1b000,
  0xc9000_cd000_cf000_d2000_d9000_f3000_17000_a2000_a9000_ad000_ba000_c2000_d0000_2a000_bf000_1c000,
  0x00b23_00b53_00b93_00ba3_00bb3_00bd3_00be3_00c43_00c63_00e43_00e83_00e93_18000_a1000_a3000_a4000,
  0x42c62_01c63_42e42_01e43_42e82_01e83_42e92_01e93_00013_00873_00893_008a3_008b3_008c3_008d3_008f3,
  0x42012_01013_42872_01873_42892_01893_428a2_018a3_428b2_018b3_428c2_018c3_428d2_018d3_428f2_018f3,
  0x55012_43012_5d012_02013_55872_43872_5d872_02873_55892_43892_5d892_02893_558a2_438a2_5d8a2_028a3,
  0x56012_82012_44012_52012_63012_5e012_68012_03013_56872_82872_44872_52872_63872_5e872_68872_03873,
  0xaa000_ac000_ae000_b5000_bb000_bd000_c3000_cb000_d1000_d7000_2b000_a5000_c0000_da000_d3000_1d000,
  0x00bc3_00bf3_00c53_00e73_00ef3_2c000_a6000_ab000_c1000_ea000_f5000_db000_d4000_e0000_e5000_1e000,
  0x00ab3_00ce3_00d73_00e13_00ec3_00ed3_dc000_f4000_d5000_de000_ed000_e1000_e6000_f9000_1f000_2d000,
  0xd6000_dd000_df000_e4000_ee000_f6000_f8000_e2000_e7000_ef000_fa000_fd000_20000_26000_37000_2e000,
  0xe8000_e9000_f0000_f7000_fb000_fc000_fe000_ff000_21000_23000_27000_34000_38000_3c000_3f000_2f000,
  0x00fe3_22000_24000_25000_28000_33000_35000_36000_39000_3a000_3d000_3e000_40000_41000_93000_30000,
  0x42fe2_01fe3_00023_00033_00043_00053_00063_00073_00083_000b3_000c3_000e3_000f3_00103_00113_00123,
  0x55fe2_43fe2_5dfe2_02fe3_42022_01023_42032_01033_42042_01043_42052_01053_42062_01063_42072_01073,
  0x56fe2_82fe2_44fe2_52fe2_63fe2_5efe2_68fe2_03fe3_55022_43022_5d022_02023_55032_43032_5d032_02033,
  0x56022_82022_44022_52022_63022_5e022_68022_03023_56032_82032_44032_52032_63032_5e032_68032_03033,
  0x55042_43042_5d042_02043_55052_43052_5d052_02053_55062_43062_5d062_02063_55072_43072_5d072_02073,
  0x56042_82042_44042_52042_63042_5e042_68042_03043_56052_82052_44052_52052_63052_5e052_68052_03053,
  0x56062_82062_44062_52062_63062_5e062_68062_03063_56072_82072_44072_52072_63072_5e072_68072_03073,
  0x42082_01083_420b2_010b3_420c2_010c3_420e2_010e3_420f2_010f3_42102_01103_42112_01113_42122_01123,
  0x55082_43082_5d082_02083_550b2_430b2_5d0b2_020b3_550c2_430c2_5d0c2_020c3_550e2_430e2_5d0e2_020e3,
  0x56082_82082_44082_52082_63082_5e082_68082_03083_560b2_820b2_440b2_520b2_630b2_5e0b2_680b2_030b3,
  0x42bc2_01bc3_42bf2_01bf3_42c52_01c53_42e72_01e73_42ef2_01ef3_00093_008e3_00903_00913_00943_009f3,
  0x55ef2_43ef2_5def2_02ef3_42092_01093_428e2_018e3_42902_01903_42912_01913_42942_01943_429f2_019f3,
  0x56ef2_82ef2_44ef2_52ef2_63ef2_5eef2_68ef2_03ef3_55092_43092_5d092_02093_558e2_438e2_5d8e2_028e3,
  0x56092_82092_44092_52092_63092_5e092_68092_03093_568e2_828e2_448e2_528e2_638e2_5e8e2_688e2_038e3,
  0x00133_00143_00153_00173_00183_00193_001a3_001b3_001c3_001d3_001e3_001f3_007f3_00dc3_00f93_31000,
  0x421c2_011c3_421d2_011d3_421e2_011e3_421f2_011f3_427f2_017f3_42dc2_01dc3_42f92_01f93_32000_3b000,
  0x557f2_437f2_5d7f2_027f3_55dc2_43dc2_5ddc2_02dc3_55f92_43f92_5df92_02f93_000a3_000d3_00163_00004,
  0x56f92_82f92_44f92_52f92_63f92_5ef92_68f92_03f93_420a2_010a3_420d2_010d3_42162_01163_00004_00004,
  0x550a2_430a2_5d0a2_020a3_550d2_430d2_5d0d2_020d3_55162_43162_5d162_02163_00004_00004_00004_00004,
  0x560a2_820a2_440a2_520a2_630a2_5e0a2_680a2_030a3_560d2_820d2_440d2_520d2_630d2_5e0d2_680d2_030d3,
  0x560c2_820c2_440c2_520c2_630c2_5e0c2_680c2_030c3_560e2_820e2_440e2_520e2_630e2_5e0e2_680e2_030e3,
  0x550f2_430f2_5d0f2_020f3_55102_43102_5d102_02103_55112_43112_5d112_02113_55122_43122_5d122_02123,
  0x560f2_820f2_440f2_520f2_630f2_5e0f2_680f2_030f3_56102_82102_44102_52102_63102_5e102_68102_03103,
  0x56112_82112_44112_52112_63112_5e112_68112_03113_56122_82122_44122_52122_63122_5e122_68122_03123,
  0x42132_01133_42142_01143_42152_01153_42172_01173_42182_01183_42192_01193_421a2_011a3_421b2_011b3,
  0x55132_43132_5d132_02133_55142_43142_5d142_02143_55152_43152_5d152_02153_55172_43172_5d172_02173,
  0x56132_82132_44132_52132_63132_5e132_68132_03133_56142_82142_44142_52142_63142_5e142_68142_03143,
  0x56152_82152_44152_52152_63152_5e152_68152_03153_56172_82172_44172_52172_63172_5e172_68172_03173,
  0x56162_82162_44162_52162_63162_5e162_68162_03163_00004_00004_00004_00004_00004_00004_00004_00004,
  0x55182_43182_5d182_02183_55192_43192_5d192_02193_551a2_431a2_5d1a2_021a3_551b2_431b2_5d1b2_021b3,
  0x56182_82182_44182_52182_63182_5e182_68182_03183_56192_82192_44192_52192_63192_5e192_68192_03193,
  0x561a2_821a2_441a2_521a2_631a2_5e1a2_681a2_031a3_561b2_821b2_441b2_521b2_631b2_5e1b2_681b2_031b3,
  0x551c2_431c2_5d1c2_021c3_551d2_431d2_5d1d2_021d3_551e2_431e2_5d1e2_021e3_551f2_431f2_5d1f2_021f3,
  0x561c2_821c2_441c2_521c2_631c2_5e1c2_681c2_031c3_561d2_821d2_441d2_521d2_631d2_5e1d2_681d2_031d3,
  0x561e2_821e2_441e2_521e2_631e2_5e1e2_681e2_031e3_561f2_821f2_441f2_521f2_631f2_5e1f2_681f2_031f3,
  0x00303_00313_00323_00613_00633_00653_00693_006f3_00733_00743_46000_51000_54000_59000_5b000_5c000,
  0x42732_01733_42742_01743_00203_00253_002d3_002e3_002f3_00333_00343_00353_00363_00373_00383_00393,
  0x55732_43732_5d732_02733_55742_43742_5d742_02743_42202_01203_42252_01253_422d2_012d3_422e2_012e3,
  0x55202_43202_5d202_02203_55252_43252_5d252_02253_552d2_432d2_5d2d2_022d3_552e2_432e2_5d2e2_022e3,
  0x56202_82202_44202_52202_63202_5e202_68202_03203_56252_82252_44252_52252_63252_5e252_68252_03253,
  0x55212_43212_5d212_02213_55222_43222_5d222_02223_55282_43282_5d282_02283_55292_43292_5d292_02293,
  0x56212_82212_44212_52212_63212_5e212_68212_03213_56222_82222_44222_52222_63222_5e222_68222_03223,
  0x567c2_827c2_447c2_527c2_637c2_5e7c2_687c2_037c3_55232_43232_5d232_02233_553e2_433e2_5d3e2_023e3,
  0x56232_82232_44232_52232_63232_5e232_68232_03233_563e2_823e2_443e2_523e2_633e2_5e3e2_683e2_033e3,
  0x55262_43262_5d262_02263_552a2_432a2_5d2a2_022a3_552c2_432c2_5d2c2_022c3_553b2_433b2_5d3b2_023b3,
  0x56262_82262_44262_52262_63262_5e262_68262_03263_562a2_822a2_442a2_522a2_632a2_5e2a2_682a2_032a3,
  0x563f2_823f2_443f2_523f2_633f2_5e3f2_683f2_033f3_55272_43272_5d272_02273_552b2_432b2_5d2b2_022b3,
  0x56272_82272_44272_52272_63272_5e272_68272_03273_562b2_822b2_442b2_522b2_632b2_5e2b2_682b2_032b3,
  0x56282_82282_44282_52282_63282_5e282_68282_03283_56292_82292_44292_52292_63292_5e292_68292_03293,
  0x562c2_822c2_442c2_522c2_632c2_5e2c2_682c2_032c3_563b2_823b2_443b2_523b2_633b2_5e3b2_683b2_033b3,
  0x562d2_822d2_442d2_522d2_632d2_5e2d2_682d2_032d3_562e2_822e2_442e2_522e2_632e2_5e2e2_682e2_032e3,
  0x422f2_012f3_42332_01333_42342_01343_42352_01353_42362_01363_42372_01373_42382_01383_42392_01393,
  0x552f2_432f2_5d2f2_022f3_55332_43332_5d332_02333_55342_43342_5d342_02343_55352_43352_5d352_02353,
  0x562f2_822f2_442f2_522f2_632f2_5e2f2_682f2_032f3_56332_82332_44332_52332_63332_5e332_68332_03333,
  0x42302_01303_42312_01313_42322_01323_42612_01613_42632_01633_42652_01653_42692_01693_426f2_016f3,
  0x55302_43302_5d302_02303_55312_43312_5d312_02313_55322_43322_5d322_02323_55612_43612_5d612_02613,
  0x56302_82302_44302_52302_63302_5e302_68302_03303_56312_82312_44312_52312_63312_5e312_68312_03313,
  0x56322_82322_44322_52322_63322_5e322_68322_03323_56612_82612_44612_52612_63612_5e612_68612_03613,
  0x56342_82342_44342_52342_63342_5e342_68342_03343_56352_82352_44352_52352_63352_5e352_68352_03353,
  0x55362_43362_5d362_02363_55372_43372_5d372_02373_55382_43382_5d382_02383_55392_43392_5d392_02393,
  0x56362_82362_44362_52362_63362_5e362_68362_03363_56372_82372_44372_52372_63372_5e372_68372_03373,
  0x56382_82382_44382_52382_63382_5e382_68382_03383_56392_82392_44392_52392_63392_5e392_68392_03393,
  0x003d3_00413_005f3_00623_00643_00663_00673_00683_006c3_006d3_006e3_00703_00723_00753_61000_67000,
  0x426c2_016c3_426d2_016d3_426e2_016e3_42702_01703_42722_01723_42752_01753_003a3_00423_00433_00443,
  0x55722_43722_5d722_02723_55752_43752_5d752_02753_423a2_013a3_42422_01423_42432_01433_42442_01443,
  0x553a2_433a2_5d3a2_023a3_55422_43422_5d422_02423_55432_43432_5d432_02433_55442_43442_5d442_02443,
  0x563a2_823a2_443a2_523a2_633a2_5e3a2_683a2_033a3_56422_82422_44422_52422_63422_5e422_68422_03423,
  0x563c2_823c2_443c2_523c2_633c2_5e3c2_683c2_033c3_56602_82602_44602_52602_63602_5e602_68602_03603,
  0x423d2_013d3_42412_01413_425f2_015f3_42622_01623_42642_01643_42662_01663_42672_01673_42682_01683,
  0x553d2_433d2_5d3d2_023d3_55412_43412_5d412_02413_555f2_435f2_5d5f2_025f3_55622_43622_5d622_02623,
  0x563d2_823d2_443d2_523d2_633d2_5e3d2_683d2_033d3_56412_82412_44412_52412_63412_5e412_68412_03413,
  0x56402_82402_44402_52402_63402_5e402_68402_03403_565b2_825b2_445b2_525b2_635b2_5e5b2_685b2_035b3,
  0x56432_82432_44432_52432_63432_5e432_68432_03433_56442_82442_44442_52442_63442_5e442_68442_03443,
  0x00453_00463_00473_00483_00493_004a3_004b3_004c3_004d3_004e3_004f3_00503_00513_00523_00533_00543,
  0x42452_01453_42462_01463_42472_01473_42482_01483_42492_01493_424a2_014a3_424b2_014b3_424c2_014c3,
  0x55452_43452_5d452_02453_55462_43462_5d462_02463_55472_43472_5d472_02473_55482_43482_5d482_02483,
  0x56452_82452_44452_52452_63452_5e452_68452_03453_56462_82462_44462_52462_63462_5e462_68462_03463,
  0x56472_82472_44472_52472_63472_5e472_68472_03473_56482_82482_44482_52482_63482_5e482_68482_03483,
  0x55492_43492_5d492_02493_554a2_434a2_5d4a2_024a3_554b2_434b2_5d4b2_024b3_554c2_434c2_5d4c2_024c3,
  0x56492_82492_44492_52492_63492_5e492_68492_03493_564a2_824a2_444a2_524a2_634a2_5e4a2_684a2_034a3,
  0x564b2_824b2_444b2_524b2_634b2_5e4b2_684b2_034b3_564c2_824c2_444c2_524c2_634c2_5e4c2_684c2_034c3,
  0x424d2_014d3_424e2_014e3_424f2_014f3_42502_01503_42512_01513_42522_01523_42532_01533_42542_01543,
  0x554d2_434d2_5d4d2_024d3_554e2_434e2_5d4e2_024e3_554f2_434f2_5d4f2_024f3_55502_43502_5d502_02503,
  0x564d2_824d2_444d2_524d2_634d2_5e4d2_684d2_034d3_564e2_824e2_444e2_524e2_634e2_5e4e2_684e2_034e3,
  0x564f2_824f2_444f2_524f2_634f2_5e4f2_684f2_034f3_56502_82502_44502_52502_63502_5e502_68502_03503,
  0x55512_43512_5d512_02513_55522_43522_5d522_02523_55532_43532_5d532_02533_55542_43542_5d542_02543,
  0x56512_82512_44512_52512_63512_5e512_68512_03513_56522_82522_44522_52522_63522_5e522_68522_03523,
  0x56532_82532_44532_52532_63532_5e532_68532_03533_56542_82542_44542_52542_63542_5e542_68542_03543,
  0x42552_01553_42562_01563_42572_01573_42592_01593_426a2_016a3_426b2_016b3_42712_01713_42762_01763,
  0x55552_43552_5d552_02553_55562_43562_5d562_02563_55572_43572_5d572_02573_55592_43592_5d592_02593,
  0x56552_82552_44552_52552_63552_5e552_68552_03553_56562_82562_44562_52562_63562_5e562_68562_03563,
  0x56572_82572_44572_52572_63572_5e572_68572_03573_56592_82592_44592_52592_63592_5e592_68592_03593,
  0x56582_82582_44582_52582_63582_5e582_68582_03583_565a2_825a2_445a2_525a2_635a2_5e5a2_685a2_035a3,
  0x425c2_015c3_42c32_01c33_42d02_01d03_00803_00823_00833_00a23_00b83_00c23_00e03_00e23_b1000_bc000,
  0x555c2_435c2_5d5c2_025c3_55c32_43c32_5dc32_02c33_55d02_43d02_5dd02_02d03_42802_01803_42822_01823,
  0x565c2_825c2_445c2_525c2_635c2_5e5c2_685c2_035c3_56c32_82c32_44c32_52c32_63c32_5ec32_68c32_03c33,
  0x565d2_825d2_445d2_525d2_635d2_5e5d2_685d2_035d3_567e2_827e2_447e2_527e2_637e2_5e7e2_687e2_037e3,
  0x565e2_825e2_445e2_525e2_635e2_5e5e2_685e2_035e3_567d2_827d2_447d2_527d2_637d2_5e7d2_687d2_037d3,
  0x565f2_825f2_445f2_525f2_635f2_5e5f2_685f2_035f3_56622_82622_44622_52622_63622_5e622_68622_03623,
  0x55632_43632_5d632_02633_55652_43652_5d652_02653_55692_43692_5d692_02693_556f2_436f2_5d6f2_026f3,
  0x56632_82632_44632_52632_63632_5e632_68632_03633_56652_82652_44652_52652_63652_5e652_68652_03653,
  0x55642_43642_5d642_02643_55662_43662_5d662_02663_55672_43672_5d672_02673_55682_43682_5d682_02683,
  0x56642_82642_44642_52642_63642_5e642_68642_03643_56662_82662_44662_52662_63662_5e662_68662_03663,
  0x56672_82672_44672_52672_63672_5e672_68672_03673_56682_82682_44682_52682_63682_5e682_68682_03683,
  0x56692_82692_44692_52692_63692_5e692_68692_03693_566f2_826f2_446f2_526f2_636f2_5e6f2_686f2_036f3,
  0x556a2_436a2_5d6a2_026a3_556b2_436b2_5d6b2_026b3_55712_43712_5d712_02713_55762_43762_5d762_02763,
  0x566a2_826a2_446a2_526a2_636a2_5e6a2_686a2_036a3_566b2_826b2_446b2_526b2_636b2_5e6b2_686b2_036b3,
  0x556c2_436c2_5d6c2_026c3_556d2_436d2_5d6d2_026d3_556e2_436e2_5d6e2_026e3_55702_43702_5d702_02703,
  0x566c2_826c2_446c2_526c2_636c2_5e6c2_686c2_036c3_566d2_826d2_446d2_526d2_636d2_5e6d2_686d2_036d3,
  0x566e2_826e2_446e2_526e2_636e2_5e6e2_686e2_036e3_56702_82702_44702_52702_63702_5e702_68702_03703,
  0x56712_82712_44712_52712_63712_5e712_68712_03713_56762_82762_44762_52762_63762_5e762_68762_03763,
  0x56722_82722_44722_52722_63722_5e722_68722_03723_56752_82752_44752_52752_63752_5e752_68752_03753,
  0x56732_82732_44732_52732_63732_5e732_68732_03733_56742_82742_44742_52742_63742_5e742_68742_03743,
  0x55772_43772_5d772_02773_55782_43782_5d782_02783_55792_43792_5d792_02793_557a2_437a2_5d7a2_027a3,
  0x56772_82772_44772_52772_63772_5e772_68772_03773_56782_82782_44782_52782_63782_5e782_68782_03783,
  0x56792_82792_44792_52792_63792_5e792_68792_03793_567a2_827a2_447a2_527a2_637a2_5e7a2_687a2_037a3,
  0x567f2_827f2_447f2_527f2_637f2_5e7f2_687f2_037f3_56dc2_82dc2_44dc2_52dc2_63dc2_5edc2_68dc2_03dc3,
  0x56d02_82d02_44d02_52d02_63d02_5ed02_68d02_03d03_55802_43802_5d802_02803_55822_43822_5d822_02823,
  0x56802_82802_44802_52802_63802_5e802_68802_03803_56822_82822_44822_52822_63822_5e822_68822_03823,
  0x00b03_00b13_00b33_00d13_00d83_00d93_00e33_00e53_00e63_9a000_9f000_a0000_b4000_b6000_b8000_be000,
  0x42e62_01e63_00813_00843_00853_00863_00883_00923_009a3_009c3_00a03_00a33_00a43_00a93_00aa3_00ad3,
  0x55e62_43e62_5de62_02e63_42812_01813_42842_01843_42852_01853_42862_01863_42882_01883_42922_01923,
  0x56e62_82e62_44e62_52e62_63e62_5ee62_68e62_03e63_55812_43812_5d812_02813_55842_43842_5d842_02843,
  0x56812_82812_44812_52812_63812_5e812_68812_03813_56842_82842_44842_52842_63842_5e842_68842_03843,
  0x42832_01833_42a22_01a23_42b82_01b83_42c22_01c23_42e02_01e03_42e22_01e23_00993_00a13_00a73_00ac3,
  0x55832_43832_5d832_02833_55a22_43a22_5da22_02a23_55b82_43b82_5db82_02b83_55c22_43c22_5dc22_02c23,
  0x56832_82832_44832_52832_63832_5e832_68832_03833_56a22_82a22_44a22_52a22_63a22_5ea22_68a22_03a23,
  0x55852_43852_5d852_02853_55862_43862_5d862_02863_55882_43882_5d882_02883_55922_43922_5d922_02923,
  0x56852_82852_44852_52852_63852_5e852_68852_03853_56862_82862_44862_52862_63862_5e862_68862_03863,
  0x56882_82882_44882_52882_63882_5e882_68882_03883_56922_82922_44922_52922_63922_5e922_68922_03923,
  0x56892_82892_44892_52892_63892_5e892_68892_03893_568a2_828a2_448a2_528a2_638a2_5e8a2_688a2_038a3,
  0x558b2_438b2_5d8b2_028b3_558c2_438c2_5d8c2_028c3_558d2_438d2_5d8d2_028d3_558f2_438f2_5d8f2_028f3,
  0x568b2_828b2_448b2_528b2_638b2_5e8b2_688b2_038b3_568c2_828c2_448c2_528c2_638c2_5e8c2_688c2_038c3,
  0x568d2_828d2_448d2_528d2_638d2_5e8d2_688d2_038d3_568f2_828f2_448f2_528f2_638f2_5e8f2_688f2_038f3,
  0x55902_43902_5d902_02903_55912_43912_5d912_02913_55942_43942_5d942_02943_559f2_439f2_5d9f2_029f3,
  0x56902_82902_44902_52902_63902_5e902_68902_03903_56912_82912_44912_52912_63912_5e912_68912_03913,
  0x00933_00953_00963_00973_00983_009b3_009d3_009e3_00a53_00a63_00a83_00ae3_00af3_00b43_00b63_00b73,
  0x42932_01933_42952_01953_42962_01963_42972_01973_42982_01983_429b2_019b3_429d2_019d3_429e2_019e3,
  0x55932_43932_5d932_02933_55952_43952_5d952_02953_55962_43962_5d962_02963_55972_43972_5d972_02973,
  0x56932_82932_44932_52932_63932_5e932_68932_03933_56952_82952_44952_52952_63952_5e952_68952_03953,
  0x56942_82942_44942_52942_63942_5e942_68942_03943_569f2_829f2_449f2_529f2_639f2_5e9f2_689f2_039f3,
  0x56962_82962_44962_52962_63962_5e962_68962_03963_56972_82972_44972_52972_63972_5e972_68972_03973,
  0x55982_43982_5d982_02983_559b2_439b2_5d9b2_029b3_559d2_439d2_5d9d2_029d3_559e2_439e2_5d9e2_029e3,
  0x56982_82982_44982_52982_63982_5e982_68982_03983_569b2_829b2_449b2_529b2_639b2_5e9b2_689b2_039b3,
  0x55e02_43e02_5de02_02e03_55e22_43e22_5de22_02e23_42992_01993_42a12_01a13_42a72_01a73_42ac2_01ac3,
  0x55992_43992_5d992_02993_55a12_43a12_5da12_02a13_55a72_43a72_5da72_02a73_55ac2_43ac2_5dac2_02ac3,
  0x56992_82992_44992_52992_63992_5e992_68992_03993_56a12_82a12_44a12_52a12_63a12_5ea12_68a12_03a13,
  0x429a2_019a3_429c2_019c3_42a02_01a03_42a32_01a33_42a42_01a43_42a92_01a93_42aa2_01aa3_42ad2_01ad3,
  0x559a2_439a2_5d9a2_029a3_559c2_439c2_5d9c2_029c3_55a02_43a02_5da02_02a03_55a32_43a32_5da32_02a33,
  0x569a2_829a2_449a2_529a2_639a2_5e9a2_689a2_039a3_569c2_829c2_449c2_529c2_639c2_5e9c2_689c2_039c3,
  0x569d2_829d2_449d2_529d2_639d2_5e9d2_689d2_039d3_569e2_829e2_449e2_529e2_639e2_5e9e2_689e2_039e3,
  0x56a02_82a02_44a02_52a02_63a02_5ea02_68a02_03a03_56a32_82a32_44a32_52a32_63a32_5ea32_68a32_03a33,
  0x55a42_43a42_5da42_02a43_55a92_43a92_5da92_02a93_55aa2_43aa2_5daa2_02aa3_55ad2_43ad2_5dad2_02ad3,
  0x56a42_82a42_44a42_52a42_63a42_5ea42_68a42_03a43_56a92_82a92_44a92_52a92_63a92_5ea92_68a92_03a93,
  0x42a52_01a53_42a62_01a63_42a82_01a83_42ae2_01ae3_42af2_01af3_42b42_01b43_42b62_01b63_42b72_01b73,
  0x55a52_43a52_5da52_02a53_55a62_43a62_5da62_02a63_55a82_43a82_5da82_02a83_55ae2_43ae2_5dae2_02ae3,
  0x56a52_82a52_44a52_52a52_63a52_5ea52_68a52_03a53_56a62_82a62_44a62_52a62_63a62_5ea62_68a62_03a63,
  0x56a72_82a72_44a72_52a72_63a72_5ea72_68a72_03a73_56ac2_82ac2_44ac2_52ac2_63ac2_5eac2_68ac2_03ac3,
  0x56a82_82a82_44a82_52a82_63a82_5ea82_68a82_03a83_56ae2_82ae2_44ae2_52ae2_63ae2_5eae2_68ae2_03ae3,
  0x56aa2_82aa2_44aa2_52aa2_63aa2_5eaa2_68aa2_03aa3_56ad2_82ad2_44ad2_52ad2_63ad2_5ead2_68ad2_03ad3,
  0x42ab2_01ab3_42ce2_01ce3_42d72_01d73_42e12_01e13_42ec2_01ec3_42ed2_01ed3_00c73_00cf3_00ea3_00eb3,
  0x55ab2_43ab2_5dab2_02ab3_55ce2_43ce2_5dce2_02ce3_55d72_43d72_5dd72_02d73_55e12_43e12_5de12_02e13,
  0x56ab2_82ab2_44ab2_52ab2_63ab2_5eab2_68ab2_03ab3_56ce2_82ce2_44ce2_52ce2_63ce2_5ece2_68ce2_03ce3,
  0x55af2_43af2_5daf2_02af3_55b42_43b42_5db42_02b43_55b62_43b62_5db62_02b63_55b72_43b72_5db72_02b73,
  0x56af2_82af2_44af2_52af2_63af2_5eaf2_68af2_03af3_56b42_82b42_44b42_52b42_63b42_5eb42_68b42_03b43,
  0x42b02_01b03_42b12_01b13_42b32_01b33_42d12_01d13_42d82_01d83_42d92_01d93_42e32_01e33_42e52_01e53,
  0x55b02_43b02_5db02_02b03_55b12_43b12_5db12_02b13_55b32_43b32_5db32_02b33_55d12_43d12_5dd12_02d13,
  0x56b02_82b02_44b02_52b02_63b02_5eb02_68b02_03b03_56b12_82b12_44b12_52b12_63b12_5eb12_68b12_03b13,
  0x42b22_01b23_42b52_01b53_42b92_01b93_42ba2_01ba3_42bb2_01bb3_42bd2_01bd3_42be2_01be3_42c42_01c43,
  0x55b22_43b22_5db22_02b23_55b52_43b52_5db52_02b53_55b92_43b92_5db92_02b93_55ba2_43ba2_5dba2_02ba3,
  0x56b22_82b22_44b22_52b22_63b22_5eb22_68b22_03b23_56b52_82b52_44b52_52b52_63b52_5eb52_68b52_03b53,
  0x56b32_82b32_44b32_52b32_63b32_5eb32_68b32_03b33_56d12_82d12_44d12_52d12_63d12_5ed12_68d12_03d13,
  0x56b62_82b62_44b62_52b62_63b62_5eb62_68b62_03b63_56b72_82b72_44b72_52b72_63b72_5eb72_68b72_03b73,
  0x56b82_82b82_44b82_52b82_63b82_5eb82_68b82_03b83_56c22_82c22_44c22_52c22_63c22_5ec22_68c22_03c23,
  0x56b92_82b92_44b92_52b92_63b92_5eb92_68b92_03b93_56ba2_82ba2_44ba2_52ba2_63ba2_5eba2_68ba2_03ba3,
  0x55bb2_43bb2_5dbb2_02bb3_55bd2_43bd2_5dbd2_02bd3_55be2_43be2_5dbe2_02be3_55c42_43c42_5dc42_02c43,
  0x56bb2_82bb2_44bb2_52bb2_63bb2_5ebb2_68bb2_03bb3_56bd2_82bd2_44bd2_52bd2_63bd2_5ebd2_68bd2_03bd3,
  0x55bc2_43bc2_5dbc2_02bc3_55bf2_43bf2_5dbf2_02bf3_55c52_43c52_5dc52_02c53_55e72_43e72_5de72_02e73,
  0x56bc2_82bc2_44bc2_52bc2_63bc2_5ebc2_68bc2_03bc3_56bf2_82bf2_44bf2_52bf2_63bf2_5ebf2_68bf2_03bf3,
  0x56be2_82be2_44be2_52be2_63be2_5ebe2_68be2_03be3_56c42_82c42_44c42_52c42_63c42_5ec42_68c42_03c43,
  0x00c03_00c13_00c83_00c93_00ca3_00cd3_00d23_00d53_00da3_00db3_00ee3_00f03_00f23_00f33_00ff3_e3000,
  0x42c02_01c03_42c12_01c13_42c82_01c83_42c92_01c93_42ca2_01ca3_42cd2_01cd3_42d22_01d23_42d52_01d53,
  0x55c02_43c02_5dc02_02c03_55c12_43c12_5dc12_02c13_55c82_43c82_5dc82_02c83_55c92_43c92_5dc92_02c93,
  0x56c02_82c02_44c02_52c02_63c02_5ec02_68c02_03c03_56c12_82c12_44c12_52c12_63c12_5ec12_68c12_03c13,
  0x56c52_82c52_44c52_52c52_63c52_5ec52_68c52_03c53_56e72_82e72_44e72_52e72_63e72_5ee72_68e72_03e73,
  0x55c62_43c62_5dc62_02c63_55e42_43e42_5de42_02e43_55e82_43e82_5de82_02e83_55e92_43e92_5de92_02e93,
  0x56c62_82c62_44c62_52c62_63c62_5ec62_68c62_03c63_56e42_82e42_44e42_52e42_63e42_5ee42_68e42_03e43,
  0x55ec2_43ec2_5dec2_02ec3_55ed2_43ed2_5ded2_02ed3_42c72_01c73_42cf2_01cf3_42ea2_01ea3_42eb2_01eb3,
  0x55c72_43c72_5dc72_02c73_55cf2_43cf2_5dcf2_02cf3_55ea2_43ea2_5dea2_02ea3_55eb2_43eb2_5deb2_02eb3,
  0x56c72_82c72_44c72_52c72_63c72_5ec72_68c72_03c73_56cf2_82cf2_44cf2_52cf2_63cf2_5ecf2_68cf2_03cf3,
  0x56c82_82c82_44c82_52c82_63c82_5ec82_68c82_03c83_56c92_82c92_44c92_52c92_63c92_5ec92_68c92_03c93,
  0x55ca2_43ca2_5dca2_02ca3_55cd2_43cd2_5dcd2_02cd3_55d22_43d22_5dd22_02d23_55d52_43d52_5dd52_02d53,
  0x56ca2_82ca2_44ca2_52ca2_63ca2_5eca2_68ca2_03ca3_56cd2_82cd2_44cd2_52cd2_63cd2_5ecd2_68cd2_03cd3,
  0x42da2_01da3_42db2_01db3_42ee2_01ee3_42f02_01f03_42f22_01f23_42f32_01f33_42ff2_01ff3_00cb3_00cc3,
  0x55f22_43f22_5df22_02f23_55f32_43f32_5df32_02f33_55ff2_43ff2_5dff2_02ff3_42cb2_01cb3_42cc2_01cc3,
  0x56ff2_82ff2_44ff2_52ff2_63ff2_5eff2_68ff2_03ff3_55cb2_43cb2_5dcb2_02cb3_55cc2_43cc2_5dcc2_02cc3,
  0x56cb2_82cb2_44cb2_52cb2_63cb2_5ecb2_68cb2_03cb3_56cc2_82cc2_44cc2_52cc2_63cc2_5ecc2_68cc2_03cc3,
  0x56d22_82d22_44d22_52d22_63d22_5ed22_68d22_03d23_56d52_82d52_44d52_52d52_63d52_5ed52_68d52_03d53,
  0x00d33_00d43_00d63_00dd3_00de3_00df3_00f13_00f43_00f53_00f63_00f73_00f83_00fa3_00fb3_00fc3_00fd3,
  0x42d32_01d33_42d42_01d43_42d62_01d63_42dd2_01dd3_42de2_01de3_42df2_01df3_42f12_01f13_42f42_01f43,
  0x55d32_43d32_5dd32_02d33_55d42_43d42_5dd42_02d43_55d62_43d62_5dd62_02d63_55dd2_43dd2_5ddd2_02dd3,
  0x56d32_82d32_44d32_52d32_63d32_5ed32_68d32_03d33_56d42_82d42_44d42_52d42_63d42_5ed42_68d42_03d43,
  0x56d62_82d62_44d62_52d62_63d62_5ed62_68d62_03d63_56dd2_82dd2_44dd2_52dd2_63dd2_5edd2_68dd2_03dd3,
  0x56d72_82d72_44d72_52d72_63d72_5ed72_68d72_03d73_56e12_82e12_44e12_52e12_63e12_5ee12_68e12_03e13,
  0x55d82_43d82_5dd82_02d83_55d92_43d92_5dd92_02d93_55e32_43e32_5de32_02e33_55e52_43e52_5de52_02e53,
  0x56d82_82d82_44d82_52d82_63d82_5ed82_68d82_03d83_56d92_82d92_44d92_52d92_63d92_5ed92_68d92_03d93,
  0x55da2_43da2_5dda2_02da3_55db2_43db2_5ddb2_02db3_55ee2_43ee2_5dee2_02ee3_55f02_43f02_5df02_02f03,
  0x56da2_82da2_44da2_52da2_63da2_5eda2_68da2_03da3_56db2_82db2_44db2_52db2_63db2_5edb2_68db2_03db3,
  0x55de2_43de2_5dde2_02de3_55df2_43df2_5ddf2_02df3_55f12_43f12_5df12_02f13_55f42_43f42_5df42_02f43,
  0x56de2_82de2_44de2_52de2_63de2_5ede2_68de2_03de3_56df2_82df2_44df2_52df2_63df2_5edf2_68df2_03df3,
  0x56e02_82e02_44e02_52e02_63e02_5ee02_68e02_03e03_56e22_82e22_44e22_52e22_63e22_5ee22_68e22_03e23,
  0x56e32_82e32_44e32_52e32_63e32_5ee32_68e32_03e33_56e52_82e52_44e52_52e52_63e52_5ee52_68e52_03e53,
  0x56e82_82e82_44e82_52e82_63e82_5ee82_68e82_03e83_56e92_82e92_44e92_52e92_63e92_5ee92_68e92_03e93,
  0x56ea2_82ea2_44ea2_52ea2_63ea2_5eea2_68ea2_03ea3_56eb2_82eb2_44eb2_52eb2_63eb2_5eeb2_68eb2_03eb3,
  0x56ec2_82ec2_44ec2_52ec2_63ec2_5eec2_68ec2_03ec3_56ed2_82ed2_44ed2_52ed2_63ed2_5eed2_68ed2_03ed3,
  0x56ee2_82ee2_44ee2_52ee2_63ee2_5eee2_68ee2_03ee3_56f02_82f02_44f02_52f02_63f02_5ef02_68f02_03f03,
  0x56f12_82f12_44f12_52f12_63f12_5ef12_68f12_03f13_56f42_82f42_44f42_52f42_63f42_5ef42_68f42_03f43,
  0x56f22_82f22_44f22_52f22_63f22_5ef22_68f22_03f23_56f32_82f32_44f32_52f32_63f32_5ef32_68f32_03f33,
  0x42f52_01f53_42f62_01f63_42f72_01f73_42f82_01f83_42fa2_01fa3_42fb2_01fb3_42fc2_01fc3_42fd2_01fd3,
  0x55f52_43f52_5df52_02f53_55f62_43f62_5df62_02f63_55f72_43f72_5df72_02f73_55f82_43f82_5df82_02f83,
  0x56f52_82f52_44f52_52f52_63f52_5ef52_68f52_03f53_56f62_82f62_44f62_52f62_63f62_5ef62_68f62_03f63,
  0x56f72_82f72_44f72_52f72_63f72_5ef72_68f72_03f73_56f82_82f82_44f82_52f82_63f82_5ef82_68f82_03f83,
  0x55fa2_43fa2_5dfa2_02fa3_55fb2_43fb2_5dfb2_02fb3_55fc2_43fc2_5dfc2_02fc3_55fd2_43fd2_5dfd2_02fd3,
  0x56fa2_82fa2_44fa2_52fa2_63fa2_5efa2_68fa2_03fa3_56fb2_82fb2_44fb2_52fb2_63fb2_5efb2_68fb2_03fb3,
  0x56fc2_82fc2_44fc2_52fc2_63fc2_5efc2_68fc2_03fc3_56fd2_82fd2_44fd2_52fd2_63fd2_5efd2_68fd2_03fd3]

/-- What four bits do in a state. -/
structure Transition where
  /-- The next state. -/
  next : Nat
  /-- The octet that is completed, if one is. -/
  octet? : Option UInt8
  /-- Whether the string may end here. -/
  mayEnd : Bool
deriving DecidableEq, Repr

/-- The meaning of an entry, which is no transition if the bits are to be refused. -/
def Transition.ofEntry? (entry : Nat) : Option Transition :=
  if entry / 4 % 2 = 1 then none
  else
    some
      { next := entry >>> 12
        octet? := if entry / 2 % 2 = 1 then some (UInt8.ofNat (entry >>> 4)) else none
        mayEnd := decide (entry % 2 = 1) }

/-- The entry of a state for a value of the four bits. -/
def transitionEntry (state half : Nat) : Nat :=
  transitionRows.getD state 0 >>> (20 * (15 - half)) % 0x100000

/-- What four bits do in a state, or nothing if they complete the end-of-string word. -/
def transition? (state half : Nat) : Option Transition :=
  Transition.ofEntry? (transitionEntry state half)

end FieldCompression.Huffman
